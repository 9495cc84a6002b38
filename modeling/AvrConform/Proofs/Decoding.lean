import AvrConform.Instruction
set_option autoImplicit false

namespace AvrConform

/-- The fields that a word of the group is read by cover all sixteen bits. -/
theorem Word.fields (w : Word) :
    (w &&& 0xfe00#16) ||| (w &&& 0x000f#16) ||| ((w >>> 4) &&& 0x001f#16) <<< 4 = w := by
  have hrd : ((w >>> 4) &&& 0x001f#16) <<< 4 = w &&& 0x01f0#16 := by
    have hmask : BitVec.allOnes 16 <<< 4 &&& 0x001f#16 <<< 4 = 0x01f0#16 := by decide
    rw [BitVec.shiftLeft_and_distrib, BitVec.shiftLeft_ushiftRight, BitVec.and_assoc, hmask]
  have hmask : 0xfe00#16 ||| 0x000f#16 ||| 0x01f0#16 = BitVec.allOnes 16 := by decide
  rw [hrd, ← BitVec.and_or_distrib_left, ← BitVec.and_or_distrib_left, hmask, BitVec.and_allOnes]

/-- Where at most one member answers, the first answer does not depend on the order. -/
theorem findSome?_eq_of_perm {α β : Type} {f : α → Option β} {xs ys : List α} (h : xs.Perm ys)
    (hone : xs.countP (fun x => (f x).isSome) ≤ 1) : xs.findSome? f = ys.findSome? f := by
  induction h with
  | nil => rfl
  | cons x h ih =>
    rw [List.findSome?_cons, List.findSome?_cons]
    cases hx : f x with
    | some y => rfl
    | none => exact ih (by simpa [hx] using hone)
  | swap x y xs =>
    simp only [List.findSome?_cons]
    cases hx : f x with
    | none => rfl
    | some u =>
      cases hy : f y with
      | none => rfl
      | some v => simp [hx, hy] at hone
  | trans h _ ih ih' => exact (ih hone).trans (ih' (h.countP_eq _ ▸ hone))

namespace Opcode

theorem code_of_ofWord? {w : Word} {op : Opcode} (h : ofWord? w = some op) :
    w &&& 0xfe00#16 = 0x9400#16 ∧ BitVec.ofNat 16 op.code = w &&& 0x000f#16 := by
  unfold ofWord? at h
  split at h
  · next hgroup =>
    have hcode : op.code = (w &&& 0x000f#16).toNat := by simpa using List.find?_some h
    refine ⟨hgroup, ?_⟩
    rw [hcode, BitVec.ofNat_toNat, BitVec.setWidth_eq]
  · cases h

end Opcode

namespace Instruction

theorem val_rdField (w : Word) : (rdField w).val = ((w >>> 4) &&& 0x001f#16).toNat := by
  rw [BitVec.toNat_and]
  exact (Nat.and_two_pow_sub_one_eq_mod (w >>> 4).toNat 5).symm

theorem ofNat_rdField (w : Word) : BitVec.ofNat 16 (rdField w).val = (w >>> 4) &&& 0x001f#16 := by
  rw [val_rdField, BitVec.ofNat_toNat, BitVec.setWidth_eq]

theorem ofInt?_rdField (w : Word) : Reg.ofInt? ((w >>> 4) &&& 0x001f#16).toNat = some (rdField w) := by
  have hnumber : ∀ r : Reg, Reg.ofInt? r.val = some r := by decide
  rw [← val_rdField, hnumber]

theorem decode_eq_readUnary {w : Word} (h : w ≠ 0#16) : decode w = readUnary w := by
  rw [decode, readers, List.findSome?_cons, readNop, if_neg h]
  cases hr : readUnary w <;> simp [hr]

theorem encode_of_readUnary {w : Word} {i : Instruction} (h : readUnary w = some i) :
    i.encode = w := by
  obtain ⟨op, hop, rfl⟩ := Option.map_eq_some_iff.mp h
  obtain ⟨hgroup, hcode⟩ := Opcode.code_of_ofWord? hop
  rw [encode, Opcode.template, hcode, ofNat_rdField, ← hgroup]
  exact Word.fields w

theorem encode_of_decode {w : Word} {i : Instruction} (h : decode w = some i) : i.encode = w := by
  by_cases hzero : w = 0#16
  · subst hzero
    have hnop : decode 0#16 = some .nop := rfl
    rw [hnop] at h
    cases h
    rfl
  · rw [decode_eq_readUnary hzero] at h
    exact encode_of_readUnary h

theorem decode_eq_some_iff {w : Word} {i : Instruction} : decode w = some i ↔ i.encode = w :=
  ⟨encode_of_decode, fun h => h ▸ decode_encode i⟩

theorem encode_injective : Function.Injective encode := by
  intro i j h
  have hdecode : decode i.encode = some j := decode_eq_some_iff.mpr h.symm
  rw [decode_encode] at hdecode
  exact Option.some.inj hdecode

/-- The word of an opcode and a register: seven fixed bits, then the register, then the code. -/
theorem encode_unary (op : Opcode) (rd : Reg) :
    encode (.unary op rd) = 0b1001010#7 ++ BitVec.ofNat 5 rd.val ++ BitVec.ofNat 4 op.code := by
  cases op <;> revert rd <;> decide

def codes : List (BitVec 4) := [0x0#4, 0x1#4, 0x2#4, 0x3#4, 0x5#4, 0x6#4, 0x7#4, 0xa#4]

theorem mem_codes_iff {o : BitVec 4} : o ∈ codes ↔ ∃ op : Opcode, BitVec.ofNat 4 op.code = o := by
  constructor
  · intro h
    have hlisted : ∀ o ∈ codes, ∃ op ∈ Opcode.all, BitVec.ofNat 4 op.code = o := by decide
    obtain ⟨op, -, hop⟩ := hlisted o h
    exact ⟨op, hop⟩
  · rintro ⟨op, rfl⟩
    cases op <;> decide

theorem isSome_decode_iff {w : Word} :
    (decode w).isSome ↔ w = 0#16 ∨ ∃ d : BitVec 5, ∃ o ∈ codes, w = 0b1001010#7 ++ d ++ o := by
  simp only [Option.isSome_iff_exists, decode_eq_some_iff]
  constructor
  · rintro ⟨i, rfl⟩
    cases i with
    | nop => exact Or.inl rfl
    | unary op rd => exact Or.inr ⟨_, _, mem_codes_iff.mpr ⟨op, rfl⟩, encode_unary op rd⟩
  · rintro (rfl | ⟨d, o, ho, rfl⟩)
    · exact ⟨.nop, rfl⟩
    · obtain ⟨op, rfl⟩ := mem_codes_iff.mp ho
      refine ⟨.unary op d.toFin, ?_⟩
      rw [encode_unary, BitVec.val_toFin, BitVec.ofNat_toNat, BitVec.setWidth_eq]

theorem countP_readers_le_one (w : Word) : readers.countP (fun read => (read w).isSome) ≤ 1 := by
  by_cases hzero : w = 0#16
  · subst hzero
    decide
  · have hnop : readNop w = none := if_neg hzero
    rw [readers, List.countP_cons_of_neg (by simp [hnop])]
    exact List.countP_le_length

theorem decode_exact :
    (∀ w i, decode w = some i ↔ i.encode = w) ∧
    (∀ w, (decode w).isSome ↔
      w = 0#16 ∨ ∃ d : BitVec 5, ∃ o ∈ codes, w = 0b1001010#7 ++ d ++ o) ∧
    (∀ op rd, encode (.unary op rd) = 0b1001010#7 ++ BitVec.ofNat 5 rd.val ++ BitVec.ofNat 4 op.code) ∧
    Function.Injective encode ∧
    (∀ w : Word, Reg.ofInt? ((w >>> 4) &&& 0x001f#16).toNat = some (rdField w)) ∧
    (∀ w, readers.countP (fun read => (read w).isSome) ≤ 1) ∧
    ∀ rs : List (Word → Option Instruction), rs.Perm readers →
      ∀ w, rs.findSome? (fun read => read w) = decode w := by
  refine ⟨fun _ _ => decode_eq_some_iff, fun _ => isSome_decode_iff, encode_unary, encode_injective,
    ofInt?_rdField, countP_readers_le_one, fun rs h w => ?_⟩
  exact (findSome?_eq_of_perm h.symm (countP_readers_le_one w)).symm

/-- The readers the other way round, at a word whose register has its highest bit set. -/
theorem decode_exact_reversed :
    [readUnary, readNop].Perm readers ∧
      [readUnary, readNop].findSome? (fun read => read 0x95f1#16) = some (.unary .neg 31) := by
  have h : [readUnary, readNop].Perm readers := List.Perm.swap _ _ _
  have hword : encode (.unary .neg 31) = 0x95f1#16 := by decide
  obtain ⟨hdecode, -, -, -, -, -, horder⟩ := decode_exact
  exact ⟨h, (horder _ h _).trans ((hdecode _ _).mpr hword)⟩

end Instruction

end AvrConform
