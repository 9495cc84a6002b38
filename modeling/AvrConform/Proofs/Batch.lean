import AvrConform.Bench
set_option autoImplicit false

/-! What a batch does on a simulator of which nothing is known: each case loads, stages, steps once and is
judged, and the report lists the verdicts. Once an invariant of the simulator's state settles the verdict
at each place, `thread_of_invariant` carries it through the batch. -/

namespace AvrConform

/-- The invariant may count how many elements are behind it. -/
theorem Logged.thread_of_invariant {α β σ : Type} {f : α → σ → Logged (β × σ)} {xs : List α}
    (inv : Nat → σ → Prop) (out : Nat → α → β)
    (hstep : ∀ k st, ∀ x ∈ xs, inv k st →
      (f x st).value.1 = out k x ∧ inv (k + 1) (f x st).value.2)
    (k : Nat) (st : σ) (h : inv k st) :
    (thread f xs st).value.1 = xs.mapIdx (fun i => out (k + i)) ∧
      inv (k + xs.length) (thread f xs st).value.2 := by
  induction xs generalizing k st with
  | nil => exact ⟨rfl, h⟩
  | cons x xs ih =>
    obtain ⟨hout, hinv⟩ := hstep k st x (by simp) h
    have htail : ∀ k st, ∀ y ∈ xs, inv k st →
        (f y st).value.1 = out k y ∧ inv (k + 1) (f y st).value.2 :=
      fun k st y hy => hstep k st y (by simp [hy])
    obtain ⟨houts, hend⟩ := ih htail (k + 1) _ hinv
    have hshift : (fun i => out (k + 1 + i)) = fun i => out (k + (i + 1)) := by
      funext i
      rw [Nat.add_assoc, Nat.add_comm 1]
    rw [value_thread_cons, hout, houts, hshift, List.mapIdx_cons, List.length_cons]
    refine ⟨rfl, ?_⟩
    rwa [Nat.add_assoc, Nat.add_comm 1] at hend

theorem Logged.thread_of_stateless {α β σ : Type} {f : α → σ → Logged (β × σ)} {xs : List α}
    (out : α → β) (h : ∀ st, ∀ x ∈ xs, (f x st).value.1 = out x) (st : σ) :
    (thread f xs st).value.1 = xs.map out := by
  have hthread := thread_of_invariant (fun _ _ => True) (fun _ => out)
    (fun _ st x hx _ => ⟨h st x hx, trivial⟩) 0 st trivial
  rw [hthread.1, List.mapIdx_eq_iff]
  exact fun i => List.getElem?_map

namespace Simulator

variable {σ ε : Type}

theorem value_observe (s : Simulator σ ε) (a : Arch) (c : Case) (st : σ) :
    (s.observe a c st).value =
      match (s.step (s.stage c.word (s.loadRegisters a (c.preset a) st).value).value).value with
      | (.error e, st) => (.error ⟨c, c.word, .decode (s.describe e)⟩, st)
      | (.ok (), st) => (.ok (s.readRegisters a st), st) := by
  simp only [observe, Logged.value_bind]
  rcases (s.step (s.stage c.word (s.loadRegisters a (c.preset a) st).value).value).value
    with ⟨e | u, st⟩
  · rfl
  · rfl

theorem value_check (s : Simulator σ ε) (a : Arch) (c : Case) (st : σ) :
    (s.check a c st).value =
      ((s.observe a c st).value.1.bind (c.judge a), (s.observe a c st).value.2) := rfl

def verdicts (s : Simulator σ ε) (a : Arch) (cs : List Case) (st : σ) :
    List (Except Failure Unit) :=
  (Logged.thread (s.check a) cs st).value.1

theorem report_runBatch (s : Simulator σ ε) (a : Arch) (cs : List Case) (st : σ) :
    (s.runBatch a cs st).value.1 = Report.ofVerdicts (s.verdicts a cs st) := rfl

theorem state_runBatch (s : Simulator σ ε) (a : Arch) (cs : List Case) (st : σ) :
    (s.runBatch a cs st).value.2 = (Logged.thread (s.check a) cs st).value.2 := rfl

end Simulator

namespace Report

/-- Where a condition decides the verdict, the cases that meet it are counted and the others are listed
in their order. -/
theorem ofVerdicts_map_ite {α : Type} (P : α → Bool) (F : α → Failure) (xs : List α) :
    ofVerdicts (xs.map (fun x => if P x then .ok () else .error (F x))) =
      ⟨(xs.filter P).length, (xs.filter (fun x => !P x)).map F⟩ := by
  induction xs with
  | nil => rfl
  | cons x xs ih =>
    rw [List.map_cons, ofVerdicts_cons, ih]
    cases hP : P x <;> simp [record, hP]

def failure? : Except Failure Unit → Option Failure
  | .ok () => none
  | .error f => some f

theorem failure?_eq_none_iff {v : Except Failure Unit} : failure? v = none ↔ v = .ok () := by
  cases v <;> simp [failure?]

theorem failure?_eq_some_iff {v : Except Failure Unit} {f : Failure} :
    failure? v = some f ↔ v = .error f := by
  cases v <;> simp [failure?]

theorem ofVerdicts_eq (vs : List (Except Failure Unit)) :
    ofVerdicts vs = ⟨vs.countP Except.isOk, vs.filterMap failure?⟩ := by
  induction vs with
  | nil => rfl
  | cons v vs ih =>
    rw [ofVerdicts_cons, ih]
    cases v with
    | error f =>
      have hsome : failure? (.error f) = some f := rfl
      rw [List.countP_cons_of_neg Bool.false_ne_true, List.filterMap_cons_some hsome, record]
    | ok u =>
      have hnone : failure? (.ok u) = none := rfl
      rw [List.countP_cons_of_pos rfl, List.filterMap_cons_none hnone, record]

theorem failures_ofVerdicts (vs : List (Except Failure Unit)) :
    (ofVerdicts vs).failures = vs.filterMap failure? := by rw [ofVerdicts_eq]

theorem isSuccess_ofVerdicts (vs : List (Except Failure Unit)) :
    (ofVerdicts vs).isSuccess = true ↔ ∀ v ∈ vs, v = .ok () := by
  rw [isSuccess, List.isEmpty_iff, failures_ofVerdicts, List.filterMap_eq_nil_iff]
  simp only [failure?_eq_none_iff]

theorem mem_failures_ofVerdicts {vs : List (Except Failure Unit)} {f : Failure} :
    f ∈ (ofVerdicts vs).failures ↔ .error f ∈ vs := by
  rw [failures_ofVerdicts, List.mem_filterMap]
  simp only [failure?_eq_some_iff, exists_eq_right]

end Report

end AvrConform
