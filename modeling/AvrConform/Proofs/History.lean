import AvrConform.Sreg
set_option autoImplicit false

namespace AvrConform

namespace FlagWrite

def flags : FlagWrite → List Flag
  | .flag f _ => [f]
  | .carry _ => [.carry]
  | .halfCarry _ => [.halfCarry]
  | .result _ _ => [.zero, .negative, .overflow, .sign]

theorem isSome_value?_iff {w : FlagWrite} {f : Flag} : (w.value? f).isSome ↔ f ∈ w.flags := by
  cases w with
  | flag g v => simp [value?, flags]
  | carry v => simp [value?, flags]
  | halfCarry v => simp [value?, flags]
  | result res overflow => cases f <;> simp [value?, flags]

theorem value?_eq_none_iff {w : FlagWrite} {f : Flag} : w.value? f = none ↔ f ∉ w.flags := by
  simp [← isSome_value?_iff]

def applyAll (ws : List FlagWrite) (s : Sreg) : Sreg := ws.foldl (fun s w => w.apply s) s

/-- What one flag is given, first to last. -/
def given (ws : List FlagWrite) (f : Flag) : List Bool := ws.filterMap (fun w => w.value? f)

theorem applyAll_append (us vs : List FlagWrite) (s : Sreg) :
    applyAll (us ++ vs) s = applyAll vs (applyAll us s) := by simp [applyAll]

theorem given_append (us vs : List FlagWrite) (f : Flag) :
    given (us ++ vs) f = given us f ++ given vs f := by simp [given]

theorem given_eq_nil_iff {ws : List FlagWrite} {f : Flag} :
    given ws f = [] ↔ ∀ w ∈ ws, f ∉ w.flags := by
  simp [given, List.filterMap_eq_nil_iff, value?_eq_none_iff]

theorem get_applyAll (ws : List FlagWrite) (s : Sreg) (f : Flag) :
    (applyAll ws s).get f = (given ws f).getLastD (s.get f) := by
  induction ws generalizing s with
  | nil => rfl
  | cons w ws ih =>
    have hrest : (applyAll (w :: ws) s).get f = (given ws f).getLastD ((w.value? f).getD (s.get f)) := by
      rw [← get_apply]
      exact ih (w.apply s)
    rw [hrest]
    cases hw : w.value? f with
    | none => simp only [given, List.filterMap_cons, hw, Option.getD_none]
    | some v => simp only [given, List.filterMap_cons, hw, Option.getD_some, List.getLastD_cons]

/-- What a flag was given last comes from the last write that names it. -/
theorem exists_last_of_getLast? {ws : List FlagWrite} {f : Flag} {v : Bool}
    (h : (given ws f).getLast? = some v) :
    ∃ before w later, ws = before ++ w :: later ∧ w.value? f = some v ∧ ∀ u ∈ later, f ∉ u.flags := by
  rw [given, List.getLast?_filterMap] at h
  obtain ⟨later, w, before, hreverse, hvalue, hlater⟩ := List.findSome?_eq_some_iff.mp h
  refine ⟨before.reverse, w, later.reverse, ?_, hvalue, ?_⟩
  · simpa using congrArg List.reverse hreverse
  · intro u hu
    exact value?_eq_none_iff.mp (hlater u (List.mem_reverse.mp hu))

variable {us vs : List FlagWrite}

/-- Two histories have the same effect on every byte exactly if they give every flag the same last value. -/
theorem applyAll_eq_iff :
    (∀ s, applyAll us s = applyAll vs s) ↔ ∀ f, (given us f).getLast? = (given vs f).getLast? := by
  constructor
  · intro h f
    have hvalue : ∀ v, (given us f).getLast?.getD v = (given vs f).getLast?.getD v := by
      intro v
      have hget := congrArg (fun s => Sreg.get s f) (h (Sreg.set 0#8 f v))
      simpa [get_applyAll, List.getLastD_eq_getLast?] using hget
    -- a flag that one of the two leaves alone can start from the opposite of what the other gives it
    have hclear := hvalue false
    have hset := hvalue true
    cases hus : (given us f).getLast? <;> cases hvs : (given vs f).getLast? <;> simp_all
  · intro h s
    apply Sreg.ext_get
    intro f
    simp [get_applyAll, List.getLastD_eq_getLast?, h f]

/-- Two histories may change places exactly if they agree on what they give to each flag that both write. -/
theorem applyAll_comm_iff :
    (∀ s, applyAll vs (applyAll us s) = applyAll us (applyAll vs s)) ↔
      ∀ f b c, (given us f).getLast? = some b → (given vs f).getLast? = some c → b = c := by
  simp only [← applyAll_append, applyAll_eq_iff, given_append, List.getLast?_append]
  apply forall_congr'
  intro f
  cases (given us f).getLast? <;> cases (given vs f).getLast? <;> simp [eq_comm]

theorem applyAll_comm_of_disjoint (h : ∀ u ∈ us, ∀ v ∈ vs, ∀ f ∈ u.flags, f ∉ v.flags) (s : Sreg) :
    applyAll vs (applyAll us s) = applyAll us (applyAll vs s) := by
  refine applyAll_comm_iff.mpr (fun f b c hus hvs => ?_) s
  obtain ⟨_, w, _, rfl, hw, -⟩ := exists_last_of_getLast? hus
  have hwritten : f ∈ w.flags := by simp [← isSome_value?_iff, hw]
  have hnone : given vs f = [] := given_eq_nil_iff.mpr fun v hv => h w (by simp) v hv f hwritten
  simp [hnone] at hvs

theorem applyAll_flagwise (ws : List FlagWrite) (s : Sreg) :
    let after := applyAll ws s
    (∀ f, (∃ before w later, ws = before ++ w :: later ∧ w.value? f = some (after.get f) ∧
          ∀ u ∈ later, f ∉ u.flags) ∨
        (∀ w ∈ ws, f ∉ w.flags) ∧ after.get f = s.get f) ∧
    (∀ vs, (∀ f, given vs f = given ws f) → applyAll vs s = after) ∧
    ∀ us vs, (∀ u ∈ us, ∀ v ∈ vs, ∀ f ∈ u.flags, f ∉ v.flags) →
      applyAll vs (applyAll us after) = applyAll us (applyAll vs after) := by
  intro after
  refine ⟨fun f => ?_, fun vs h => ?_, fun us vs h => applyAll_comm_of_disjoint h after⟩
  · have hget : after.get f = (given ws f).getLast?.getD (s.get f) := by
      rw [← List.getLastD_eq_getLast?]
      exact get_applyAll ws s f
    cases hlast : (given ws f).getLast? with
    | none =>
      rw [hlast] at hget
      exact .inr ⟨given_eq_nil_iff.mp (List.getLast?_eq_none_iff.mp hlast), hget⟩
    | some v =>
      rw [hlast] at hget
      exact .inl (hget ▸ exists_last_of_getLast? hlast)
  · exact applyAll_eq_iff.mpr (fun f => by rw [h f]) s

/-- Five writes and a rearrangement that keeps the order of the three to the zero flag; then a result and two
flags that it does not touch. The bit copy and interrupt flags hold what they held at the start. -/
theorem applyAll_flagwise_rearranged :
    let ws : List FlagWrite :=
      [.result 0x00#8 false, .carry true, .flag .zero false, .halfCarry true, .result 0x80#8 true]
    let vs : List FlagWrite :=
      [.halfCarry true, .result 0x00#8 false, .flag .zero false, .result 0x80#8 true, .carry true]
    let us : List FlagWrite := [.result 0x00#8 false]
    let xs : List FlagWrite := [.carry false, .flag .interrupt false]
    (∀ f, given vs f = given ws f) ∧ applyAll vs 0xc1#8 = 0xed#8 ∧
      (∀ u ∈ us, ∀ x ∈ xs, ∀ f ∈ u.flags, f ∉ x.flags) ∧
      applyAll xs (applyAll us 0xed#8) = applyAll us (applyAll xs 0xed#8) := by
  intro ws vs us xs
  have hgiven : ∀ f, given vs f = given ws f := fun f => by cases f <;> rfl
  have hdisjoint : ∀ u ∈ us, ∀ x ∈ xs, ∀ f ∈ u.flags, f ∉ x.flags := by decide
  have hafter : applyAll ws 0xc1#8 = 0xed#8 := by decide
  obtain ⟨-, hsame, hcomm⟩ := applyAll_flagwise ws 0xc1#8
  rw [hafter] at hsame hcomm
  exact ⟨hgiven, hsame vs hgiven, hdisjoint, hcomm us xs hdisjoint⟩

end FlagWrite

end AvrConform
