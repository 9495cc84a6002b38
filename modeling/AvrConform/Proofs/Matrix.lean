import Mathlib.Data.List.Basic
import Mathlib.Data.List.Induction
import AvrConform.Proofs.Generation
set_option autoImplicit false

namespace AvrConform

/-- `ds` holds the members of `xs` once each, in the order in which they first occur. -/
structure FirstOccurrences {α : Type} [DecidableEq α] (xs ds : List α) : Prop where
  nodup : ds.Nodup
  mem_iff : ∀ x, x ∈ ds ↔ x ∈ xs
  ordered : ds.Pairwise (fun x y => xs.idxOf x < xs.idxOf y)

namespace FirstOccurrences

variable {α : Type} [DecidableEq α] {xs ds : List α} {x : α}

theorem ordered_append (h : FirstOccurrences xs ds) (ys : List α) :
    ds.Pairwise (fun y z => (xs ++ ys).idxOf y < (xs ++ ys).idxOf z) := by
  refine h.ordered.imp_of_mem (fun {y z} hy hz hlt => ?_)
  rwa [List.idxOf_append_of_mem ((h.mem_iff y).mp hy), List.idxOf_append_of_mem ((h.mem_iff z).mp hz)]

theorem concat_of_mem (h : FirstOccurrences xs ds) (hx : x ∈ xs) :
    FirstOccurrences (xs ++ [x]) ds := by
  refine ⟨h.nodup, fun y => ?_, h.ordered_append [x]⟩
  rw [h.mem_iff, List.mem_append, List.mem_singleton]
  exact ⟨.inl, fun hy => hy.elim id (fun e => e ▸ hx)⟩

theorem concat_of_notMem (h : FirstOccurrences xs ds) (hx : x ∉ xs) :
    FirstOccurrences (xs ++ [x]) (ds ++ [x]) := by
  have hds : x ∉ ds := fun hmem => hx ((h.mem_iff x).mp hmem)
  have hlast : (xs ++ [x]).idxOf x = xs.length := by
    simp [List.idxOf_append_of_notMem hx]
  refine ⟨?_, fun y => by simp [h.mem_iff], ?_⟩
  · simpa using h.nodup.concat hds
  · rw [List.pairwise_append]
    refine ⟨h.ordered_append [x], List.pairwise_singleton _ _, fun y hy z hz => ?_⟩
    have hmem := (h.mem_iff y).mp hy
    rw [List.mem_singleton.mp hz, hlast, List.idxOf_append_of_mem hmem]
    exact List.idxOf_lt_length_of_mem hmem

end FirstOccurrences

theorem Opcode.eraseDups_concat (ops : List Opcode) (op : Opcode) :
    (ops ++ [op]).eraseDups = if op ∈ ops then ops.eraseDups else ops.eraseDups ++ [op] := by
  rw [List.eraseDups_append]
  by_cases h : op ∈ ops <;> simp [List.removeAll, List.eraseDups_cons, h]

theorem Opcode.firstOccurrences_eraseDups (ops : List Opcode) :
    FirstOccurrences ops ops.eraseDups := by
  induction ops using List.reverseRecOn with
  | nil => exact ⟨List.nodup_nil, by simp, List.Pairwise.nil⟩
  | append_singleton ops op ih =>
    rw [eraseDups_concat]
    split
    · next h => exact ih.concat_of_mem h
    · next h => exact ih.concat_of_notMem h

theorem Opcode.eraseDups_perm {ops ops' : List Opcode} (h : ops'.Perm ops) :
    ops'.eraseDups.Perm ops.eraseDups := by
  rw [List.perm_ext_iff_of_nodup (firstOccurrences_eraseDups ops').nodup
    (firstOccurrences_eraseDups ops).nodup]
  intro op
  rw [List.mem_eraseDups, List.mem_eraseDups, h.mem_iff]

namespace Arch

variable (a : Arch)

def gapOf (op : Opcode) : Option CoverageGap := a.gap? op (a.grid op)

theorem cases_eq_gapOf (op : Opcode) :
    a.cases op =
      match a.gapOf op with
      | some g => .error g
      | none => .ok (a.grid op) := rfl

theorem cases_eq_error_iff {op : Opcode} {g : CoverageGap} :
    a.cases op = .error g ↔ a.gapOf op = some g := by
  rw [cases_eq_gapOf]
  cases a.gapOf op <;> simp

theorem exists_cases_iff_gapOf {op : Opcode} :
    (∃ cs, a.cases op = .ok cs) ↔ a.gapOf op = none := by
  rw [cases_eq_gapOf]
  cases a.gapOf op <;> simp

theorem collect_eq (ops : List Opcode) :
    a.collect ops =
      match ops.findSome? a.gapOf with
      | some g => .error g
      | none => .ok (ops.flatMap a.grid) := by
  induction ops with
  | nil => rfl
  | cons op ops ih =>
    rw [collect, ih, cases_eq_gapOf, List.findSome?_cons, List.flatMap_cons]
    cases a.gapOf op with
    | some g => rfl
    | none => cases ops.findSome? a.gapOf <;> rfl

theorem findSome?_eraseDups (ops : List Opcode) :
    ops.eraseDups.findSome? a.gapOf = ops.findSome? a.gapOf := by
  induction ops using List.reverseRecOn with
  | nil => rfl
  | append_singleton ops op ih =>
    rw [Opcode.eraseDups_concat, List.findSome?_append]
    by_cases h : op ∈ ops
    · rw [if_pos h, ih]
      cases hfirst : ops.findSome? a.gapOf with
      | some g => rfl
      | none =>
        have hnone := List.findSome?_eq_none_iff.mp hfirst op h
        simp [hnone]
    · rw [if_neg h, List.findSome?_append, ih]

theorem matrix_eq (ops : List Opcode) :
    a.matrix ops =
      match ops.findSome? a.gapOf with
      | some g => .error g
      | none => .ok (ops.eraseDups.flatMap a.grid) := by
  rw [matrix, collect_eq, findSome?_eraseDups]

/-- One more opcode: it is skipped if it was read before, and otherwise its cases come last. -/
theorem matrix_concat (ops : List Opcode) (op : Opcode) :
    a.matrix (ops ++ [op]) =
      match a.matrix ops with
      | .error g => .error g
      | .ok cs => if op ∈ ops then .ok cs else (a.cases op).map (fun more => cs ++ more) := by
  rw [matrix_eq, matrix_eq, List.findSome?_append, Opcode.eraseDups_concat, cases_eq_gapOf]
  cases hfirst : ops.findSome? a.gapOf with
  | some g => rfl
  | none =>
    by_cases h : op ∈ ops
    · have hnone := List.findSome?_eq_none_iff.mp hfirst op h
      simp [h, hnone]
    · cases hop : a.gapOf op <;> simp [h, hop, Except.map]

theorem matrix_eq_ok_iff {ops : List Opcode} {cs : List Case} :
    a.matrix ops = .ok cs ↔
      (∀ op ∈ ops, a.gapOf op = none) ∧ cs = ops.eraseDups.flatMap a.grid := by
  rw [matrix_eq, ← List.findSome?_eq_none_iff]
  cases ops.findSome? a.gapOf <;> simp [eq_comm]

theorem exists_matrix_iff {ops : List Opcode} :
    (∃ cs, a.matrix ops = .ok cs) ↔ ∀ op ∈ ops, ∃ cs, a.cases op = .ok cs := by
  simp only [matrix_eq_ok_iff, exists_cases_iff_gapOf, exists_and_left, exists_eq, and_true]

theorem matrix_eq_error_iff {ops : List Opcode} {g : CoverageGap} :
    a.matrix ops = .error g ↔
      ∃ before op after, ops = before ++ op :: after ∧ a.cases op = .error g ∧
        ∀ op' ∈ before, ∃ cs, a.cases op' = .ok cs := by
  simp only [cases_eq_error_iff, exists_cases_iff_gapOf, ← List.findSome?_eq_some_iff]
  rw [matrix_eq]
  cases ops.findSome? a.gapOf <;> simp

theorem nodup_flatMap_grid {ops : List Opcode} (h : ops.Nodup) : (ops.flatMap a.grid).Nodup := by
  rw [List.nodup_flatMap]
  refine ⟨fun op _ => a.nodup_grid op, h.imp ?_⟩
  intro op op' hne c hc hc'
  exact hne (((a.mem_grid_iff op c).mp hc).1.symm.trans ((a.mem_grid_iff op' c).mp hc').1)

theorem length_flatMap_grid (ops : List Opcode) :
    (ops.flatMap a.grid).length = 6 * min a.registerCount 32 * ops.length := by
  induction ops with
  | nil => rfl
  | cons op ops ih =>
    rw [List.flatMap_cons, List.length_append, length_grid, ih, List.length_cons, Nat.mul_succ,
      Nat.add_comm]

theorem matrix_append_of_subset {ops more : List Opcode} (h : more ⊆ ops) :
    a.matrix (ops ++ more) = a.matrix ops := by
  induction more using List.reverseRecOn with
  | nil => rw [List.append_nil]
  | append_singleton more op ih =>
    have hop : op ∈ ops ++ more := List.mem_append_left more (h (by simp))
    rw [← List.append_assoc, matrix_concat, ih (fun op' h' => h (by simp [h']))]
    cases a.matrix ops with
    | error g => rfl
    | ok cs => simp [hop]

theorem matrix_perm {ops ops' : List Opcode} {cs : List Case} (h : ops'.Perm ops)
    (hcs : a.matrix ops = .ok cs) : ∃ cs', a.matrix ops' = .ok cs' ∧ cs'.Perm cs := by
  obtain ⟨hnone, rfl⟩ := a.matrix_eq_ok_iff.mp hcs
  refine ⟨_, a.matrix_eq_ok_iff.mpr ⟨fun op hop => hnone op (h.mem_iff.mp hop), rfl⟩, ?_⟩
  exact (Opcode.eraseDups_perm h).flatMap_right a.grid

theorem forall₂_cases {ops : List Opcode} (h : ∀ op ∈ ops, a.gapOf op = none) :
    List.Forall₂ (fun op part => a.cases op = .ok part) ops (ops.map a.grid) := by
  rw [List.forall₂_map_right_iff, List.forall₂_same]
  intro op hop
  rw [cases_eq_gapOf, h op hop]

theorem matrix_outcome (ops : List Opcode) :
    ((∃ cs, a.matrix ops = .ok cs) ↔ ∀ op ∈ ops, ∃ cs, a.cases op = .ok cs) ∧
    (∀ cs, a.matrix ops = .ok cs → cs.Nodup ∧
      ∃ distinct parts, FirstOccurrences ops distinct ∧
        List.Forall₂ (fun op part => a.cases op = .ok part) distinct parts ∧
        cs = parts.flatten ∧
        cs.length = 6 * min a.registerCount 32 * distinct.length) ∧
    (∀ g, a.matrix ops = .error g ↔
      ∃ before op after, ops = before ++ op :: after ∧ a.cases op = .error g ∧
        ∀ op' ∈ before, ∃ cs, a.cases op' = .ok cs) ∧
    (∀ more, more ⊆ ops → a.matrix (ops ++ more) = a.matrix ops) ∧
    ∀ ops' cs, ops'.Perm ops → a.matrix ops = .ok cs →
      ∃ cs', a.matrix ops' = .ok cs' ∧ cs'.Perm cs := by
  have hfirst := Opcode.firstOccurrences_eraseDups ops
  refine ⟨a.exists_matrix_iff, ?_, fun g => a.matrix_eq_error_iff,
    fun more h => a.matrix_append_of_subset h, fun ops' cs h hcs => a.matrix_perm h hcs⟩
  intro cs hcs
  obtain ⟨hnone, rfl⟩ := a.matrix_eq_ok_iff.mp hcs
  refine ⟨a.nodup_flatMap_grid hfirst.nodup, ops.eraseDups, ops.eraseDups.map a.grid, hfirst,
    a.forall₂_cases (fun op hop => hnone op (List.mem_eraseDups.mp hop)), rfl,
    a.length_flatMap_grid _⟩

theorem matrix_outcome_repeated :
    [Opcode.neg, .swap, .neg] ⊆ [.swap, .neg] ∧
      avr.matrix ([.swap, .neg] ++ [.neg, .swap, .neg]) = avr.matrix [.swap, .neg] := by
  have hsub : [Opcode.neg, .swap, .neg] ⊆ [.swap, .neg] := by simp
  exact ⟨hsub, (matrix_outcome avr [.swap, .neg]).2.2.2.1 _ hsub⟩

/-- Three registers, and a table that reserves a flag which only `neg` promises among these. -/
example : ({ registerCount := 3, controlFlags := (.carry, .halfCarry) } : Arch).matrix
    [.swap, .inc, .swap, .neg, .asr] = .error ⟨.neg, .carry, true⟩ := by decide

end Arch

end AvrConform
