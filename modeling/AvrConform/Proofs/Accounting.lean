import AvrConform.Proofs.Batch
import AvrConform.Proofs.Judgement
import AvrConform.Proofs.Transfer
set_option autoImplicit false

namespace AvrConform

structure Attempt (σ ε : Type) where
  case : Case
  answer : Except ε Unit
  after : σ

def Attempt.refused {σ ε : Type} (t : Attempt σ ε) : Bool :=
  match t.answer with
  | .error _ => true
  | .ok () => false

namespace Simulator

variable {σ ε : Type} (s : Simulator σ ε) (a : Arch)

def attempt (c : Case) (st : σ) : Attempt σ ε :=
  let staged := (s.stage c.word (s.loadRegisters a (c.preset a) st).value).value
  ⟨c, (s.step staged).value.1, (s.step staged).value.2⟩

def attempts : List Case → σ → List (Attempt σ ε)
  | [], _ => []
  | c :: cs, st => s.attempt a c st :: attempts cs (s.attempt a c st).after

def entry (st : σ) : RegId → Word
  | .gpr r => (s.register st r).setWidth 16
  | .sreg => (s.status st).setWidth 16
  | .pc => s.counter st

/-- The step went through, and every entry of the architecture is as expected. -/
def passes (t : Attempt σ ε) : Bool :=
  match t.answer with
  | .error _ => false
  | .ok () =>
    a.ids.all (fun i => s.entry t.after i = (t.case.expected a (t.case.preset a)).get i)

def failure (t : Attempt σ ε) : Failure where
  case := t.case
  word := t.case.word
  cause :=
    match t.answer with
    | .error e => .decode (s.describe e)
    | .ok () => .assertion (t.case.divergences a (s.readRegisters a t.after))

def verdict (t : Attempt σ ε) : Except Failure Unit :=
  if s.passes a t then .ok () else .error (s.failure a t)

theorem get_readRegisters {a : Arch} {i : RegId} (hi : i ∈ a.ids) (st : σ) :
    (s.readRegisters a st).get i = s.entry st i := by
  cases i with
  | gpr r =>
    have hr : r.val < a.registerCount := (a.mem_ids_iff _).mp hi r rfl
    have hfill := RegisterFile.reg_fill a (s.register st) RegisterFile.zero r
    rw [if_pos hr] at hfill
    exact congrArg (BitVec.setWidth 16) hfill
  | sreg => rfl
  | pc => rfl

theorem divergences_readRegisters_eq_nil_iff (c : Case) (st : σ) :
    c.divergences a (s.readRegisters a st) = [] ↔
      a.ids.all (fun i => s.entry st i = (c.expected a (c.preset a)).get i) = true := by
  rw [Case.divergences, List.filterMap_eq_nil_iff, List.all_eq_true]
  constructor
  · intro h i hi
    have hget := (c.divergence?_eq_none_iff a _ i).mp (h i hi)
    rw [s.get_readRegisters hi] at hget
    simp [hget]
  · intro h i hi
    have hget : s.entry st i = (c.expected a (c.preset a)).get i := by simpa using h i hi
    rw [Case.divergence?_eq_none_iff, s.get_readRegisters hi, hget]

theorem value_check_attempt (c : Case) (st : σ) :
    (s.check a c st).value = (s.verdict a (s.attempt a c st), (s.attempt a c st).after) := by
  rw [value_check, value_observe, verdict, passes, failure, attempt]
  cases (s.step (s.stage c.word (s.loadRegisters a (c.preset a) st).value).value).value with
  | mk answer st =>
    cases answer with
    | error e => rfl
    | ok u =>
      have hjudge := c.judge_eq a (s.readRegisters a st)
      simp only [s.divergences_readRegisters_eq_nil_iff a c st] at hjudge
      exact congrArg (fun v => (v, st)) hjudge

theorem map_case_attempts (cs : List Case) (st : σ) :
    (s.attempts a cs st).map Attempt.case = cs := by
  induction cs generalizing st with
  | nil => rfl
  | cons c cs ih => rw [attempts, List.map_cons, ih]; rfl

theorem value_thread_check (cs : List Case) (st : σ) :
    (Logged.thread (s.check a) cs st).value =
      ((s.attempts a cs st).map (s.verdict a),
        (s.attempts a cs st).foldl (fun _ t => t.after) st) := by
  induction cs generalizing st with
  | nil => rfl
  | cons c cs ih =>
    rw [Logged.value_thread_cons, value_check_attempt, ih, attempts, List.map_cons, List.foldl_cons]

theorem report_attempts (cs : List Case) (st : σ) :
    (s.runBatch a cs st).value.1 =
      ⟨((s.attempts a cs st).filter (s.passes a)).length,
        ((s.attempts a cs st).filter (fun t => !s.passes a t)).map (s.failure a)⟩ := by
  rw [report_runBatch, verdicts, value_thread_check]
  exact Report.ofVerdicts_map_ite (s.passes a) (s.failure a) (s.attempts a cs st)

theorem isDecode_failure (t : Attempt σ ε) : (s.failure a t).cause.isDecode = t.refused := by
  rw [failure, Attempt.refused]
  cases t.answer with
  | error e => rfl
  | ok u => rfl

theorem not_passes_of_refused {t : Attempt σ ε} (h : t.refused = true) : s.passes a t = false := by
  rw [passes]
  rw [Attempt.refused] at h
  cases ht : t.answer with
  | error e => rfl
  | ok u => simp [ht] at h

theorem decodeFailures_attempts (cs : List Case) (st : σ) :
    (s.runBatch a cs st).value.1.decodeFailures =
      ((s.attempts a cs st).filter Attempt.refused).length := by
  have hrefused : (fun t => t.refused && !s.passes a t) = (Attempt.refused : Attempt σ ε → Bool) := by
    funext t
    cases ht : t.refused with
    | false => rfl
    | true => rw [s.not_passes_of_refused a ht]; rfl
  -- A refused step never passes, so filtering the failures by it loses none of them.
  rw [report_attempts, Report.decodeFailures, List.filter_map, List.length_map, List.filter_filter]
  simp only [Function.comp_apply, isDecode_failure, hrefused]

theorem total_runBatch (cs : List Case) (st : σ) :
    (s.runBatch a cs st).value.1.total = cs.length := by
  have hverdicts : (s.verdicts a cs st).length = cs.length := Logged.length_thread _ cs st
  rw [report_runBatch, Report.total_ofVerdicts, hverdicts]

theorem value_runBatch_append (cs ds : List Case) (st : σ) :
    (s.runBatch a (cs ++ ds) st).value =
      let first := (s.runBatch a cs st).value
      let second := (s.runBatch a ds first.2).value
      (first.1.append second.1, second.2) := by
  have hthread := Logged.value_thread_append (s.check a) cs ds st
  apply Prod.ext
  · rw [report_runBatch, verdicts, hthread]
    exact Report.ofVerdicts_append _ _
  · rw [state_runBatch, hthread]
    rfl

theorem runBatch_accounts (cs ds : List Case) (st : σ) :
    let attempts := s.attempts a cs st
    let report := (s.runBatch a cs st).value.1
    let left := (s.runBatch a cs st).value.2
    attempts.map Attempt.case = cs ∧
      s.verdicts a cs st = attempts.map (s.verdict a) ∧
      report.passed + report.failures.length = cs.length ∧
      report.passed = (attempts.filter (s.passes a)).length ∧
      report.failures = (attempts.filter (fun t => !s.passes a t)).map (s.failure a) ∧
      report.decodeFailures = (attempts.filter Attempt.refused).length ∧
      left = attempts.foldl (fun _ t => t.after) st ∧
      (s.runBatch a (cs ++ ds) st).value =
        (report.append (s.runBatch a ds left).value.1, (s.runBatch a ds left).value.2) := by
  intro attempts report left
  have hthread := s.value_thread_check a cs st
  have hreport : report = _ := s.report_attempts a cs st
  refine ⟨s.map_case_attempts a cs st, congrArg Prod.fst hthread, s.total_runBatch a cs st, ?_, ?_,
    s.decodeFailures_attempts a cs st, congrArg Prod.snd hthread, s.value_runBatch_append a cs ds st⟩
  · rw [hreport]
  · rw [hreport]

end Simulator

end AvrConform
