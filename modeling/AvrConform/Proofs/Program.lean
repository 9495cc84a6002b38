import AvrConform.Proofs.Image
set_option autoImplicit false

namespace AvrConform

namespace Machine

def assemble (m : Machine) (p : List Instruction) (start : Word) : Machine :=
  (m.loadImage (p.map Instruction.encode) start).setCounter start

section Assemble

variable {p : List Instruction} {start : Word}

theorem pc_assemble (m : Machine) : (m.assemble p start).pc = counterAt start.toNat :=
  and_addressMask_eq_counterAt start

theorem toRegisterFile_assemble (m : Machine) :
    (m.assemble p start).toRegisterFile = { m.toRegisterFile with pc := counterAt start.toNat } := by
  rw [← and_addressMask_eq_counterAt, ← m.toRegisterFile_loadImage (p.map Instruction.encode) start]
  rfl

theorem wordAt_assemble (m : Machine) (hp : p.length ≤ flashWords) {i : Nat} (hi : i < p.length) :
    (m.assemble p start).wordAt (start.toNat + i) = p[i].encode := by
  have hword : (m.loadImage (p.map Instruction.encode) start).wordAt (start.toNat + i) = _ :=
    wordAt_loadImage (by simpa using hp) (by simpa using hi)
  rw [List.getElem_map] at hword
  exact hword

theorem wordAt_assemble_of_ne (m : Machine) {b : Nat}
    (h : ∀ i < p.length, (start.toNat + i) % flashWords ≠ b % flashWords) :
    (m.assemble p start).wordAt b = m.wordAt b :=
  wordAt_loadImage_of_ne (by simpa using h)

theorem holds_assemble (m : Machine) (hp : p.length ≤ flashWords) :
    (m.assemble p start).Holds start.toNat p := by
  intro k i hi
  obtain ⟨hk, rfl⟩ := List.getElem?_eq_some_iff.mp hi
  rw [wordAt_assemble m hp hk, Instruction.decode_encode]

theorem runs_assemble (m : Machine) (hp : p.length ≤ flashWords) {n : Nat} (hn : n ≤ p.length) :
    (m.assemble p start).Runs start.toNat n (p.take n) :=
  ((holds_assemble m hp).take n).runs (pc_assemble m) (List.length_take_of_le hn)

theorem wordAt_initial (a : Nat) : initial.wordAt a = 0#16 := by
  rw [← fetch_counterAt]
  exact Vector.getElem_replicate _

/-- After a reset the flash is empty, and an empty cell does nothing. -/
theorem holds_initial_assemble {n : Nat} (hn : p.length + n ≤ flashWords) :
    (initial.assemble p start).Holds start.toNat (p ++ List.replicate n .nop) := by
  apply (holds_assemble initial (by omega)).append
  intro k i hi
  obtain ⟨hk, rfl⟩ := List.getElem?_eq_some_iff.mp hi
  rw [List.length_replicate] at hk
  rw [wordAt_assemble_of_ne, wordAt_initial, List.getElem_replicate]
  · rfl
  · intro j hj
    simp only [flashWords] at hn ⊢
    omega

theorem runs_initial_assemble {n : Nat} (hp : p.length ≤ n) (hn : n ≤ flashWords) :
    (initial.assemble p start).Runs start.toNat n (p ++ List.replicate (n - p.length) .nop) := by
  apply (holds_initial_assemble (by omega)).runs (pc_assemble initial)
  simp only [List.length_append, List.length_replicate]
  omega

end Assemble

theorem foldl_effect_nops (is : List Instruction) (n : Nat) (f : RegisterFile) :
    (is ++ List.replicate n Instruction.nop).foldl Instruction.effect f = is.foldl Instruction.effect f := by
  rw [List.foldl_append]
  induction n with
  | zero => rfl
  | succ n ih => exact ih

theorem calls_assemble (p : List Instruction) (start : Word) (hp : p.length ≤ flashWords) :
    (∀ (m : Machine) (n : Nat), n ≤ p.length →
      (m.assemble p start).Runs start.toNat n (p.take n)) ∧
    (∀ m : Machine,
      (m.assemble p start).toRegisterFile =
        { m.toRegisterFile with pc := counterAt start.toNat } ∧
      (m.assemble p start).executed = m.executed ∧
      (∀ i (hi : i < p.length), (m.assemble p start).wordAt (start.toNat + i) = p[i].encode) ∧
      ∀ b, (∀ i < p.length, (start.toNat + i) % flashWords ≠ b % flashWords) →
        (m.assemble p start).wordAt b = m.wordAt b) ∧
    ∀ n, p.length < n → n ≤ flashWords →
      let after (k : Nat) : Machine := (calls call k (initial.assemble p start)).2
      (initial.assemble p start).Runs start.toNat n (p ++ List.replicate (n - p.length) .nop) ∧
        (∀ r, (after n).reg r = (after p.length).reg r) ∧
        (after n).sreg = (after p.length).sreg := by
  refine ⟨fun m n hn => runs_assemble m hp hn, fun m => ⟨toRegisterFile_assemble m,
    executed_loadImage m _ _, fun i hi => wordAt_assemble m hp hi,
    fun b h => wordAt_assemble_of_ne m h⟩, fun n hlt hn => ?_⟩
  have hlong : (initial.assemble p start).Runs start.toNat n _ := runs_initial_assemble (Nat.le_of_lt hlt) hn
  have hshort : (initial.assemble p start).Runs start.toNat p.length _ :=
    runs_assemble initial hp (Nat.le_refl _)
  rw [List.take_length] at hshort
  refine ⟨hlong, fun r => ?_, ?_⟩
  · rw [hlong.reg, hshort.reg, foldl_effect_nops]
  · rw [hlong.sreg, hshort.sreg, foldl_effect_nops]

/-- A program whose first two words are in the last cells of the flash and the third in the first, run on
a machine with other values in it. -/
theorem calls_assemble_straddling :
    let p : List Instruction := [.unary .inc 16, .nop, .unary .ror 16]
    let m : Machine := (initial.setRegister 16 0x1f#8).setStatus 0xc1#8
    p.length ≤ flashWords ∧
      (m.assemble p 0x7ffe#16).Runs 0x7ffe 3 p ∧
      (calls call 3 (m.assemble p 0x7ffe#16)).2.reg 16 = 0x90#8 := by
  have hp : [Instruction.unary .inc 16, .nop, .unary .ror 16].length ≤ flashWords := by decide
  have hruns := (calls_assemble _ 0x7ffe#16 hp).1
    ((initial.setRegister 16 0x1f#8).setStatus 0xc1#8) 3 (Nat.le_refl _)
  exact ⟨hp, hruns, (hruns.reg 16).trans (by decide)⟩

end Machine

end AvrConform
