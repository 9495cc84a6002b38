import Mathlib.Data.List.Infix
import AvrConform.CommandLine
import AvrConform.Proofs.Matrix
import AvrConform.Proofs.Numerals
set_option autoImplicit false

/-! Cases chosen by their names. A name has one small `r` in it, between the capitals of the mnemonic and
the two digits of the register, so a name that is looked for can be found in another one only with the two
letters on top of each other; and no mnemonic ends in another one. -/

namespace AvrConform

theorem Opcode.eq_of_mnemonic_suffix {op o : Opcode} (h : op.mnemonic <:+ o.mnemonic) : op = o := by
  revert h
  cases op <;> cases o <;> decide

namespace Case

/-- What the names of all cases of an opcode on one register start with. -/
def stem (op : Opcode) (rd : Reg) : List Char := op.mnemonic ++ "_r".toList ++ numeral 10 2 rd.val

def operandSuffix (v : Byte) : List Char := "_v".toList ++ numeral 16 2 v.toNat

theorem name_eq (c : Case) : c.name = stem c.opcode c.rd ++ operandSuffix c.operand := by
  simp only [name, stem, operandSuffix, List.append_assoc]

theorem stem_eq_digits (op : Opcode) (rd : Reg) :
    stem op rd = op.mnemonic ++ ['_', 'r', (rd.val / 10).digitChar, (rd.val % 10).digitChar] := by
  have hdigits : ∀ rd : Reg, numeral 10 2 rd.val = [(rd.val / 10).digitChar, (rd.val % 10).digitChar] := by
    decide
  rw [stem, hdigits, List.append_assoc]
  rfl

theorem r_notMem_numeral {base : Nat} (hlow : 1 < base) (hhigh : base ≤ 16) (width n : Nat) :
    'r' ∉ numeral base width n := by
  intro h
  have hdigit := isDigit_of_mem_numeral hlow hhigh h
  exact absurd hdigit (by decide)

theorem r_notMem_operandSuffix (v : Byte) : 'r' ∉ operandSuffix v := by
  have hnumeral : 'r' ∉ numeral 16 2 v.toNat := r_notMem_numeral (by decide) (by decide) 2 v.toNat
  simp [operandSuffix, hnumeral]

/-- Wherever a stem is found in front of a text without the letter `r`, it is that stem and nothing comes
before it. -/
theorem stem_append_inj {op o : Opcode} {rd q : Reg} {s t u : List Char} (hu : 'r' ∉ u)
    (h : s ++ stem op rd ++ t = stem o q ++ u) : op = o ∧ rd = q ∧ t = u := by
  have hmnemonic : 'r' ∉ o.mnemonic ++ ['_'] := by
    cases o <;> decide
  have hrest : 'r' ∉ numeral 10 2 q.val ++ u := by
    simp [r_notMem_numeral, hu]
  have hsplit : (o.mnemonic ++ ['_']) ++ 'r' :: (numeral 10 2 q.val ++ u) =
      (s ++ op.mnemonic ++ ['_']) ++ 'r' :: (numeral 10 2 rd.val ++ t) := by
    simpa [stem] using h.symm
  obtain ⟨hfront, -, hdigits⟩ := (List.append_cons_inj_of_notMem hmnemonic hrest).mp hsplit
  have hop := Opcode.eq_of_mnemonic_suffix ⟨s, (List.append_cancel_right hfront).symm⟩
  obtain ⟨hval, htail⟩ := fixed_numeral_append_inj (by decide) (by decide) (by decide) (by omega)
    (by omega) hdigits
  exact ⟨hop, Fin.ext hval.symm, htail.symm⟩

theorem stem_infix_name_iff {op : Opcode} {rd : Reg} {c : Case} :
    stem op rd <:+: c.name ↔ c.opcode = op ∧ c.rd = rd := by
  constructor
  · rintro ⟨s, t, h⟩
    rw [name_eq] at h
    obtain ⟨rfl, rfl, -⟩ := stem_append_inj (r_notMem_operandSuffix c.operand) h
    exact ⟨rfl, rfl⟩
  · rintro ⟨rfl, rfl⟩
    rw [name_eq]
    exact (List.prefix_append _ _).isInfix

theorem operandSuffix_append_inj {v w : Byte} {t : List Char}
    (h : operandSuffix v ++ t = operandSuffix w) : v = w := by
  rw [← List.append_nil (operandSuffix w)] at h
  simp only [operandSuffix, List.append_assoc] at h
  have hwidth : ∀ v : Byte, v.toNat < 16 ^ 2 := fun v => v.isLt
  obtain ⟨hval, -⟩ := fixed_numeral_append_inj (by decide) (by decide) (by decide) (hwidth v) (hwidth w)
    (List.append_cancel_left h)
  exact BitVec.eq_of_toNat_eq hval

theorem name_infix_name_iff {c d : Case} : c.name <:+: d.name ↔ d = c := by
  constructor
  · rintro ⟨s, t, h⟩
    rw [name_eq, name_eq, ← List.append_assoc, List.append_assoc (s ++ _)] at h
    obtain ⟨hop, hrd, hoperand⟩ := stem_append_inj (r_notMem_operandSuffix d.operand) h
    have hv := operandSuffix_append_inj hoperand
    cases c
    cases d
    cases hop
    cases hrd
    cases hv
    rfl
  · rintro rfl
    exact List.infix_rfl

theorem name_injective : Function.Injective name := by
  intro c d h
  exact (name_infix_name_iff.mp (h ▸ List.infix_rfl)).symm

end Case

namespace Options

theorem keep_eq_filter (o : Options) (cs : List Case) :
    o.keep cs = cs.filter (fun c => ∀ pattern ∈ o.filter, pattern <:+: c.name) := by
  rw [keep]
  cases o.filter with
  | none => simp
  | some pattern =>
    apply List.filter_congr
    intro c _
    rw [Bool.eq_iff_iff, Case.isNamed, Case.occurs_iff]
    simp

theorem keep_name (o : Options) (cs : List Case) (c : Case) :
    (∀ pattern, ({ o with filter := some pattern } : Options).keep cs =
      cs.filter (fun d => pattern <:+: d.name)) ∧
    ({ o with filter := some c.name } : Options).keep cs = cs.filter (fun d => d = c) ∧
    (∀ (op : Opcode) (rd : Reg),
      let pattern := op.mnemonic ++ ['_', 'r', (rd.val / 10).digitChar, (rd.val % 10).digitChar]
      ({ o with filter := some pattern } : Options).keep cs =
        cs.filter (fun d => d.opcode = op ∧ d.rd = rd)) ∧
    (∀ d : Case, d ≠ c → d.name ≠ c.name) ∧
    ∀ (a : Arch) (ops : List Opcode) (generated : List Case),
      a.matrix ops = .ok generated → (generated.map Case.name).Nodup := by
  have hkeep : ∀ pattern, ({ o with filter := some pattern } : Options).keep cs =
      cs.filter (fun d => pattern <:+: d.name) := by
    intro pattern
    rw [keep_eq_filter]
    simp only [Option.mem_some_iff, forall_eq']
  refine ⟨hkeep, ?_, fun op rd => ?_, fun d hne h => hne (Case.name_injective h), ?_⟩
  · simp only [hkeep, Case.name_infix_name_iff]
  · intro pattern
    have hpattern : pattern = Case.stem op rd := (Case.stem_eq_digits op rd).symm
    simp only [hkeep, hpattern, Case.stem_infix_name_iff]
  · intro a ops generated h
    obtain ⟨-, rfl⟩ := a.matrix_eq_ok_iff.mp h
    have hnodup := a.nodup_flatMap_grid (Opcode.firstOccurrences_eraseDups ops).nodup
    exact hnodup.map Case.name_injective

/-- A mnemonic of four letters beside one of three, registers that share a digit, and a repeated case. -/
theorem keep_name_repeated :
    let c : Case := ⟨.neg, 5, 0x80#8⟩
    ({ filter := some c.name } : Options).keep
        [⟨.swap, 5, 0x80#8⟩, c, ⟨.neg, 15, 0x80#8⟩, ⟨.neg, 5, 0x08#8⟩, c] = [c, c] ∧
      Arch.avr.matrix [.swap, .neg, .swap] = .ok ([Opcode.swap, .neg].flatMap Arch.avr.grid) ∧
      (([Opcode.swap, .neg].flatMap Arch.avr.grid).map Case.name).Nodup := by
  intro c
  have hmatrix : Arch.avr.matrix [.swap, .neg, .swap] = .ok ([Opcode.swap, .neg].flatMap Arch.avr.grid) :=
    Arch.matrix_avr [.swap, .neg, .swap]
  have hkeep := keep_name {} [⟨.swap, 5, 0x80#8⟩, c, ⟨.neg, 15, 0x80#8⟩, ⟨.neg, 5, 0x08#8⟩, c] c
  exact ⟨hkeep.2.1.trans (by decide), hmatrix, hkeep.2.2.2.2 _ _ _ hmatrix⟩

end Options

end AvrConform
