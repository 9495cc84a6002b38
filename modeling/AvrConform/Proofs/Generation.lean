import Mathlib.Data.List.FinRange
import AvrConform.Proofs.Coverage
set_option autoImplicit false

/-! The generator on every architecture. Its list is the product of the registers and the operands,
and what it lacks is settled by the table alone: without registers no flag is seen at all, and a
reserved flag is never seen set. -/

namespace AvrConform

namespace Arch

def reserves (a : Arch) (f : Flag) : Bool := f = a.controlFlags.1 ∨ f = a.controlFlags.2

theorem get_controlMask (a : Arch) (f : Flag) : Sreg.get a.controlMask f = a.reserves f := by
  rw [controlMask, Sreg.get_ofFlags]
  simp [reserves]

theorem nodup_regs (a : Arch) : a.regs.Nodup :=
  (List.nodup_finRange 32).sublist (List.take_sublist a.registerCount Reg.all)

theorem nodup_grid (a : Arch) (op : Opcode) : (a.grid op).Nodup := by
  rw [grid, List.nodup_flatMap]
  constructor
  · intro rd _
    exact (Profile.nodup_values op).map (fun v w h => (Case.mk.inj h).2.2)
  · refine a.nodup_regs.imp ?_
    intro rd rd' hne c hc hc'
    obtain ⟨v, -, rfl⟩ := List.mem_map.mp hc
    obtain ⟨w, -, hsame⟩ := List.mem_map.mp hc'
    exact hne (Case.mk.inj hsame).2.1.symm

theorem getElem?_flatMap_values (op : Opcode) (rs : List Reg) (i : Nat) :
    (rs.flatMap (fun rd => (Profile.of op).values.map (fun v => (⟨op, rd, v⟩ : Case))))[i]? =
      rs[i / 6]?.bind (fun rd => (Profile.of op).values[i % 6]?.map (fun v => ⟨op, rd, v⟩)) := by
  induction rs generalizing i with
  | nil => rfl
  | cons r rs ih =>
    have hlength : ((Profile.of op).values.map (fun v => (⟨op, r, v⟩ : Case))).length = 6 := by
      rw [List.length_map, Profile.length_values]
    rw [List.flatMap_cons]
    by_cases hi : i < 6
    · have hdiv : i / 6 = 0 := by omega
      have hmod : i % 6 = i := by omega
      rw [List.getElem?_append_left (by omega), List.getElem?_map, hdiv, hmod]
      rfl
    · have hdiv : i / 6 = (i - 6) / 6 + 1 := by omega
      have hmod : i % 6 = (i - 6) % 6 := by omega
      rw [List.getElem?_append_right (by omega), hlength, ih, hdiv, hmod, List.getElem?_cons_succ]

theorem val_of_getElem?_regs {a : Arch} {k : Nat} {rd : Reg} (h : a.regs[k]? = some rd) :
    rd.val = k := by
  rw [regs, Reg.all, List.getElem?_take] at h
  split at h
  · obtain ⟨hk, hrd⟩ := List.getElem?_eq_some_iff.mp h
    rw [← hrd, List.getElem_finRange]
    rfl
  · cases h

theorem of_getElem?_grid {a : Arch} {op : Opcode} {i : Nat} {c : Case}
    (h : (a.grid op)[i]? = some c) :
    c.opcode = op ∧ c.rd.val = i / 6 ∧ (Profile.of op).values[i % 6]? = some c.operand := by
  rw [grid, getElem?_flatMap_values] at h
  obtain ⟨rd, hrd, hcase⟩ := Option.bind_eq_some_iff.mp h
  obtain ⟨v, hv, rfl⟩ := Option.map_eq_some_iff.mp hcase
  exact ⟨rfl, val_of_getElem?_regs hrd, hv⟩

/-- A reserved flag comes from the preset, where it is clear. -/
theorem get_sreg_expected_of_reserves {a : Arch} {f : Flag} (h : a.reserves f = true) (c : Case) :
    Sreg.get (c.expected a (c.preset a)).sreg f = false := by
  rw [c.sreg_expected_preset, Sreg.get_and, Sreg.get_not, get_controlMask, h]
  exact Bool.and_false _

section Missing

variable {a : Arch} {op : Opcode}

theorem missing_grid_of_no_register (h : a.registerCount = 0) (f : Flag) :
    (Coverage.ofCases a (a.grid op)).missing f = some false := by
  have hgrid : a.grid op = [] := by
    rw [grid, regs, h]
    rfl
  rw [hgrid, Coverage.ofCases, List.map_nil, Coverage.missing_ofList, if_pos]
  intro s hs
  cases hs

theorem missing_grid_of_reserves (hregs : 0 < a.registerCount) {f : Flag}
    (h : a.reserves f = true) : (Coverage.ofCases a (a.grid op)).missing f = some true := by
  have hclear := fun c => get_sreg_expected_of_reserves h c
  have hlength : 0 < (a.grid op).length := by
    rw [length_grid]
    omega
  obtain ⟨c, hc⟩ := List.exists_mem_of_length_pos hlength
  rw [Coverage.ofCases, Coverage.missing_ofList, if_neg, if_pos]
  · intro s hs
    obtain ⟨d, -, rfl⟩ := List.mem_map.mp hs
    exact hclear d
  · intro hset
    have hmem := hset _ (List.mem_map_of_mem hc)
    rw [hclear c] at hmem
    cases hmem

theorem missing_grid_eq (hregs : 0 < a.registerCount) {f : Flag} (h : f ∈ (Profile.of op).covers) :
    (Coverage.ofCases a (a.grid op)).missing f = if a.reserves f then some true else none := by
  cases hf : a.reserves f with
  | true => exact missing_grid_of_reserves hregs hf
  | false => exact missing_grid hregs h (by rw [get_controlMask, hf])

/-- The first promised flag that the table keeps from being driven both ways. -/
def undriven? (a : Arch) (op : Opcode) : Option Flag :=
  if a.registerCount = 0 then (Profile.of op).covers.head?
  else (Profile.of op).covers.find? a.reserves

theorem gap?_grid (a : Arch) (op : Opcode) :
    a.gap? op (a.grid op) =
      (a.undriven? op).map (fun f => ⟨op, f, decide (0 < a.registerCount)⟩) := by
  rw [gap?, undriven?]
  by_cases hnone : a.registerCount = 0
  · have hvalue : decide (0 < a.registerCount) = false := by simp [hnone]
    rw [if_pos hnone, hvalue]
    simp only [missing_grid_of_no_register hnone]
    cases (Profile.of op).covers with
    | nil => rfl
    | cons f fs => rfl
  · have hregs : 0 < a.registerCount := by omega
    have hvalue : decide (0 < a.registerCount) = true := by simp [hregs]
    rw [if_neg hnone, hvalue]
    have hprefix : ∀ fs : List Flag, fs ⊆ (Profile.of op).covers →
        fs.findSome? (fun f => ((Coverage.ofCases a (a.grid op)).missing f).map
          (fun v => (⟨op, f, v⟩ : CoverageGap))) =
        (fs.find? a.reserves).map (fun f => ⟨op, f, true⟩) := by
      intro fs
      induction fs with
      | nil => exact fun _ => rfl
      | cons f fs ih =>
        intro hsubset
        have hrest := ih (fun g hg => hsubset (List.mem_cons_of_mem f hg))
        rw [List.findSome?_cons, missing_grid_eq hregs (hsubset (by simp)), List.find?_cons]
        cases hf : a.reserves f with
        | true => rfl
        | false => exact hrest
    exact hprefix _ (List.Subset.refl _)

theorem undriven?_eq_none_iff :
    a.undriven? op = none ↔
      (Profile.of op).covers = [] ∨
        1 ≤ a.registerCount ∧
          ∀ f ∈ (Profile.of op).covers, f ≠ a.controlFlags.1 ∧ f ≠ a.controlFlags.2 := by
  have hreserves : ∀ f, ¬ a.reserves f = true ↔ f ≠ a.controlFlags.1 ∧ f ≠ a.controlFlags.2 := by
    intro f
    simp [reserves]
  rw [undriven?]
  by_cases hnone : a.registerCount = 0
  · simp [hnone]
  · have hregs : 1 ≤ a.registerCount := by omega
    rw [if_neg hnone, List.find?_eq_none]
    simp only [hreserves]
    constructor
    · exact fun h => .inr ⟨hregs, h⟩
    · rintro (hnil | ⟨-, h⟩)
      · simp [hnil]
      · exact h

theorem cases_eq (a : Arch) (op : Opcode) :
    a.cases op =
      match a.undriven? op with
      | some f => .error ⟨op, f, decide (0 < a.registerCount)⟩
      | none => .ok (a.grid op) := by
  rw [cases, gap?_grid]
  cases a.undriven? op with
  | none => rfl
  | some f => rfl

theorem exists_cases_iff : (∃ cs, a.cases op = .ok cs) ↔ a.undriven? op = none := by
  rw [cases_eq]
  cases a.undriven? op with
  | none => simp
  | some f => simp

end Missing

theorem cases_outcome (a : Arch) (op : Opcode) :
    ((∃ cs, a.cases op = .ok cs) ↔
      (Profile.of op).covers = [] ∨
        1 ≤ a.registerCount ∧
          ∀ f ∈ (Profile.of op).covers, f ≠ a.controlFlags.1 ∧ f ≠ a.controlFlags.2) ∧
    (∀ cs, a.cases op = .ok cs →
      cs.length = 6 * min a.registerCount 32 ∧ cs.Nodup ∧
        ∀ i c, cs[i]? = some c →
          c.opcode = op ∧ c.rd.val = i / 6 ∧ (Profile.of op).values[i % 6]? = some c.operand) ∧
    (∀ g, a.cases op = .error g →
      g.opcode = op ∧
        (a.registerCount = 0 → (Profile.of op).covers.head? = some g.flag ∧ g.value = false) ∧
        (1 ≤ a.registerCount →
          (Profile.of op).covers.find? (fun f => f = a.controlFlags.1 ∨ f = a.controlFlags.2) =
            some g.flag ∧ g.value = true)) ∧
    ∃ cs, avr.cases op = .ok cs := by
  refine ⟨exists_cases_iff.trans undriven?_eq_none_iff, ?_, ?_, ⟨_, cases_avr op⟩⟩
  · intro cs hcs
    rw [eq_grid_of_cases hcs]
    exact ⟨a.length_grid op, a.nodup_grid op, fun i c hc => of_getElem?_grid hc⟩
  · intro g hg
    rw [cases_eq] at hg
    cases hundriven : a.undriven? op with
    | none => rw [hundriven] at hg; cases hg
    | some f =>
      rw [hundriven] at hg
      cases hg
      refine ⟨rfl, fun hnone => ?_, fun hregs => ?_⟩
      · rw [undriven?, if_pos hnone] at hundriven
        exact ⟨hundriven, by simp [hnone]⟩
      · have hsome : ¬ a.registerCount = 0 := by omega
        rw [undriven?, if_neg hsome] at hundriven
        exact ⟨hundriven, decide_eq_true hregs⟩

/-- Nothing is promised of `swap`, so it needs no registers. -/
example : ({ registerCount := 0 } : Arch).cases .swap = .ok [] := rfl

end Arch

end AvrConform
