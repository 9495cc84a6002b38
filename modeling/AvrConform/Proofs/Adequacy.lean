import AvrConform.Proofs.Coverage
import AvrConform.Proofs.Decoding
import AvrConform.Proofs.Faults
set_option autoImplicit false

/-! Which wrong instructions the generated cases notice. The six operands of an opcode tell it from every
other instruction but one: from a clear carry `lsr` and `ror` do the same, and every case starts from a
clear carry. -/

namespace AvrConform

namespace Opcode

theorem exists_operand_changed (op : Opcode) :
    ∃ v ∈ (Profile.of op).values, (Oracle.expected op v 0#8).1 ≠ v := by
  cases op <;> decide

/-- The opcodes that leave the same result and flags on every operand when the carry is clear. -/
def SameWithoutCarry (op op' : Opcode) : Prop :=
  op' = op ∨ op = .lsr ∧ op' = .ror ∨ op = .ror ∧ op' = .lsr

instance (op op' : Opcode) : Decidable (SameWithoutCarry op op') :=
  inferInstanceAs (Decidable (_ ∨ _))

theorem exists_operand_separating {op op' : Opcode} (h : ¬ SameWithoutCarry op op') :
    ∃ v ∈ (Profile.of op).values, Oracle.expected op' v 0#8 ≠ Oracle.expected op v 0#8 := by
  revert h
  cases op <;> cases op' <;> decide

theorem expected_lsr_eq_ror (v : Byte) : Oracle.expected .lsr v 0#8 = Oracle.expected .ror v 0#8 := by
  have hres : v >>> 1 ||| ((0#8 >>> Flag.carry.bit) &&& 1#8) <<< 7 = v >>> 1 := by
    simp
  simp only [Oracle.expected, Oracle.compute, Oracle.writes, hres]

theorem expected_of_sameWithoutCarry {op op' : Opcode} (h : SameWithoutCarry op op') (v : Byte) :
    Oracle.expected op' v 0#8 = Oracle.expected op v 0#8 := by
  rcases h with rfl | ⟨rfl, rfl⟩ | ⟨rfl, rfl⟩
  · rfl
  · exact (expected_lsr_eq_ror v).symm
  · exact expected_lsr_eq_ror v

end Opcode

namespace Case

/-- The instruction does to the preset what the case's own instruction does. -/
def BlindTo (c : Case) (i : Instruction) : Prop :=
  i.effect (c.preset Arch.avr) = c.instruction.effect (c.preset Arch.avr)

theorem expected_avr (c : Case) :
    c.expected Arch.avr (c.preset Arch.avr) =
      { c.instruction.effect (c.preset Arch.avr) with pc := 0x0101#16 } := by
  apply RegisterFile.ext_entries
  · intro r
    exact (c.reg_expected Arch.avr _ r).trans
      (Instruction.reg_effect_unary _ c.opcode c.rd r).symm
  · rw [sreg_expected_preset, Sreg.and_not_eq_self_iff.mpr c.flags_and_controlMask_avr]
    change _ = (Oracle.expected c.opcode ((c.preset Arch.avr).reg c.rd) (c.preset Arch.avr).sreg).2
    rw [reg_preset, if_pos rfl, sreg_preset, flags]
  · exact Arch.nextPc_startPc_avr

theorem blindTo_unary_iff {c : Case} {op : Opcode} :
    c.BlindTo (.unary op c.rd) ↔
      Oracle.expected op c.operand 0#8 = Oracle.expected c.opcode c.operand 0#8 := by
  constructor
  · intro h
    have hreg := congrArg (fun f => f.reg c.rd) h
    have hsreg := congrArg (fun f => f.sreg) h
    simp only [instruction, Instruction.reg_effect_unary, Instruction.sreg_effect_unary, reg_preset,
      sreg_preset, ↓reduceIte] at hreg hsreg
    exact Prod.ext hreg hsreg
  · intro h
    have hoperand : (c.preset Arch.avr).gprs.get c.rd = c.operand :=
      (c.reg_preset Arch.avr c.rd).trans (if_pos rfl)
    simp only [BlindTo, instruction, Instruction.effect, hoperand, sreg_preset, h]

/-- Whatever leaves `rd` alone leaves the operand where the result should be. -/
theorem not_blindTo_of_reg_eq {c : Case} {i : Instruction}
    (hchanged : (Oracle.expected c.opcode c.operand 0#8).1 ≠ c.operand)
    (hreg : (i.effect (c.preset Arch.avr)).reg c.rd = (c.preset Arch.avr).reg c.rd) :
    ¬ c.BlindTo i := by
  intro hblind
  rw [hblind] at hreg
  simp only [instruction, Instruction.reg_effect_unary, reg_preset, sreg_preset, ↓reduceIte] at hreg
  exact hchanged hreg

theorem exists_not_blindTo {op : Opcode} {rd : Reg} {i : Instruction}
    (h : ∀ op', Opcode.SameWithoutCarry op op' → i ≠ .unary op' rd) :
    ∃ v ∈ (Profile.of op).values, ¬ (⟨op, rd, v⟩ : Case).BlindTo i := by
  obtain ⟨v, hv, hchanged⟩ := op.exists_operand_changed
  cases i with
  | nop => exact ⟨v, hv, not_blindTo_of_reg_eq hchanged rfl⟩
  | unary op' rd' =>
    by_cases hrd : rd = rd'
    · subst hrd
      obtain ⟨w, hw, hdiffer⟩ := Opcode.exists_operand_separating (fun hsame => h op' hsame rfl)
      exact ⟨w, hw, fun hblind => hdiffer (blindTo_unary_iff.mp hblind)⟩
    · refine ⟨v, hv, not_blindTo_of_reg_eq hchanged ?_⟩
      rw [Instruction.reg_effect_unary, if_neg hrd]

end Case

theorem RegisterFile.with_pc_inj {f g : RegisterFile} (h : f.pc = g.pc) (pc : Word) :
    { f with pc := pc } = { g with pc := pc } ↔ f = g := by
  cases f
  cases g
  cases h
  simp only [RegisterFile.mk.injEq, and_true]

/-- The word of the instruction is kept, or is the other one of the two right shifts. -/
def Unnoticed (f : Word → Word) (op : Opcode) (rd : Reg) : Prop :=
  f (Instruction.unary op rd).encode = (Instruction.unary op rd).encode ∨
    op = .lsr ∧ f (Instruction.unary op rd).encode = (Instruction.unary .ror rd).encode ∨
    op = .ror ∧ f (Instruction.unary op rd).encode = (Instruction.unary .lsr rd).encode

instance (f : Word → Word) (op : Opcode) (rd : Reg) : Decidable (Unnoticed f op rd) :=
  inferInstanceAs (Decidable (_ ∨ _))

theorem unnoticed_iff {f : Word → Word} {op : Opcode} {rd : Reg} :
    Unnoticed f op rd ↔ ∃ op', Opcode.SameWithoutCarry op op' ∧
      f (Instruction.unary op rd).encode = (Instruction.unary op' rd).encode := by
  constructor
  · rintro (h | ⟨hop, h⟩ | ⟨hop, h⟩)
    · exact ⟨op, .inl rfl, h⟩
    · exact ⟨.ror, .inr (.inl ⟨hop, rfl⟩), h⟩
    · exact ⟨.lsr, .inr (.inr ⟨hop, rfl⟩), h⟩
  · rintro ⟨op', rfl | ⟨hop, rfl⟩ | ⟨hop, rfl⟩, h⟩
    · exact .inl h
    · exact .inr (.inl ⟨hop, h⟩)
    · exact .inr (.inr ⟨hop, h⟩)

namespace FaultPlan

def storing (f : Word → Word) : FaultPlan where
  substitute _ := f

def storedVerdict (f : Word → Word) (c : Case) : Except Failure Unit :=
  match Instruction.decode (f c.word) with
  | none => .error ⟨c, c.word, .decode (String.ofList (InvalidInstruction.wire ⟨f c.word, startPc⟩))⟩
  | some i => c.judge Arch.avr { i.effect (c.preset Arch.avr) with pc := 0x0101#16 }

theorem check_storing (f : Word → Word) (c : Case) (st : Faulty) :
    ((storing f).simulator.check Arch.avr c st).value.1 = storedVerdict f c := by
  rw [Simulator.value_check, value_observe, storedVerdict]
  simp only [storing]
  cases Instruction.decode (f c.word) with
  | none => rfl
  | some i =>
    have hread := ((st.machine.prepare Arch.avr c (f c.word)).execute i).readRegisters_avr
    rw [Machine.toRegisterFile_execute_prepare] at hread
    exact congrArg (c.judge Arch.avr) hread

theorem verdicts_storing (f : Word → Word) (cs : List Case) (st : Faulty) :
    (storing f).simulator.verdicts Arch.avr cs st = cs.map (storedVerdict f) :=
  Logged.thread_of_stateless _ (fun st c _ => check_storing f c st) st

theorem judge_stepped_eq_ok_iff (c : Case) (i : Instruction) :
    c.judge Arch.avr { i.effect (c.preset Arch.avr) with pc := 0x0101#16 } = .ok () ↔ c.BlindTo i := by
  have hpc : (i.effect (c.preset Arch.avr)).pc = (c.instruction.effect (c.preset Arch.avr)).pc := by
    rw [Instruction.pc_effect, Instruction.pc_effect]
  rw [Case.judge_avr_eq_ok_iff, Case.expected_avr, RegisterFile.with_pc_inj hpc, Case.BlindTo]

theorem storedVerdict_eq_ok_iff {f : Word → Word} {c : Case} :
    storedVerdict f c = .ok () ↔ ∃ i, Instruction.decode (f c.word) = some i ∧ c.BlindTo i := by
  rw [storedVerdict]
  cases Instruction.decode (f c.word) with
  | none => simp
  | some i => simp [judge_stepped_eq_ok_iff]

theorem storedVerdict_eq_error {f : Word → Word} {c : Case} (h : storedVerdict f c ≠ .ok ()) :
    ∃ cause, storedVerdict f c = .error ⟨c, c.word, cause⟩ := by
  revert h
  rw [storedVerdict]
  cases Instruction.decode (f c.word) with
  | none => exact fun _ => ⟨_, rfl⟩
  | some i =>
    simp only [Case.judge_avr]
    split
    · exact fun h => absurd rfl h
    · exact fun _ => ⟨_, rfl⟩

theorem storedVerdict_of_unnoticed {f : Word → Word} {c : Case} (h : Unnoticed f c.opcode c.rd) :
    storedVerdict f c = .ok () := by
  obtain ⟨op, hsame, hf⟩ := unnoticed_iff.mp h
  have hdecode : Instruction.decode (f c.word) = some (.unary op c.rd) :=
    Instruction.decode_eq_some_iff.mpr hf.symm
  have hblind : c.BlindTo (.unary op c.rd) :=
    Case.blindTo_unary_iff.mpr (Opcode.expected_of_sameWithoutCarry hsame c.operand)
  exact storedVerdict_eq_ok_iff.mpr ⟨_, hdecode, hblind⟩

theorem exists_storedVerdict_ne_ok {f : Word → Word} {op : Opcode} {rd : Reg}
    (h : ¬ Unnoticed f op rd) :
    ∃ v ∈ (Profile.of op).values, storedVerdict f ⟨op, rd, v⟩ ≠ .ok () := by
  -- All six cases have the same word, so what is decoded does not depend on the operand.
  cases hd : Instruction.decode (f (Instruction.unary op rd).encode) with
  | none =>
    obtain ⟨v, hv, -⟩ := op.exists_operand_changed
    refine ⟨v, hv, fun hok => ?_⟩
    obtain ⟨i, hi, -⟩ := storedVerdict_eq_ok_iff.mp hok
    cases hd.symm.trans hi
  | some i =>
    have hother : ∀ op', Opcode.SameWithoutCarry op op' → i ≠ .unary op' rd := by
      rintro op' hsame rfl
      exact h (unnoticed_iff.mpr ⟨op', hsame, (Instruction.encode_of_decode hd).symm⟩)
    obtain ⟨v, hv, hseen⟩ := Case.exists_not_blindTo hother
    refine ⟨v, hv, fun hok => hseen ?_⟩
    obtain ⟨j, hj, hblind⟩ := storedVerdict_eq_ok_iff.mp hok
    cases hd.symm.trans hj
    exact hblind

section Storing

variable (f : Word → Word) (st : Faulty)

theorem isSuccess_storing (cs : List Case) :
    ((storing f).simulator.runBatch Arch.avr cs st).value.1.isSuccess = true ↔
      ∀ c ∈ cs, storedVerdict f c = .ok () := by
  rw [Simulator.report_runBatch, Report.isSuccess_ofVerdicts, verdicts_storing, List.forall_mem_map]

theorem mem_failures_storing {cs : List Case} {c : Case} (hc : c ∈ cs)
    (h : storedVerdict f c ≠ .ok ()) :
    ∃ failure ∈ ((storing f).simulator.runBatch Arch.avr cs st).value.1.failures,
      failure.case = c := by
  obtain ⟨cause, hcause⟩ := storedVerdict_eq_error h
  refine ⟨⟨c, c.word, cause⟩, ?_, rfl⟩
  rw [Simulator.report_runBatch, Report.mem_failures_ofVerdicts, verdicts_storing, ← hcause]
  exact List.mem_map_of_mem hc

/-- The generated cases pass if every word is kept or confused among the right shifts. Any other word
makes one of the six cases of its opcode and register fail; those confusions no operand shows. -/
theorem runBatch_storing (ops : List Opcode) :
    ∃ cs, Arch.avr.matrix ops = .ok cs ∧
      (((storing f).simulator.runBatch Arch.avr cs st).value.1.isSuccess = true ↔
        ∀ op ∈ ops, ∀ rd, Unnoticed f op rd) ∧
      (∀ op ∈ ops, ∀ rd, ¬ Unnoticed f op rd →
        ∃ v ∈ (Profile.of op).values,
          ∃ failure ∈ ((storing f).simulator.runBatch Arch.avr cs st).value.1.failures,
            failure.case = ⟨op, rd, v⟩) ∧
      ∀ cs : List Case, (∀ c ∈ cs, Unnoticed f c.opcode c.rd) →
        ((storing f).simulator.runBatch Arch.avr cs st).value.1.isSuccess = true := by
  have hmem : ∀ {op : Opcode} {rd : Reg} {v : Byte}, op ∈ ops → v ∈ (Profile.of op).values →
      (⟨op, rd, v⟩ : Case) ∈ ops.eraseDups.flatMap Arch.avr.grid :=
    fun hop hv => Arch.mem_matrix_avr.mpr ⟨hop, hv⟩
  refine ⟨_, Arch.matrix_avr ops, ?_, ?_, ?_⟩
  · rw [isSuccess_storing]
    constructor
    · intro hpass op hop rd
      apply Decidable.byContradiction
      intro hnoticed
      obtain ⟨v, hv, hfail⟩ := exists_storedVerdict_ne_ok hnoticed
      exact hfail (hpass _ (hmem hop hv))
    · intro hall c hc
      exact storedVerdict_of_unnoticed (hall c.opcode (Arch.mem_matrix_avr.mp hc).1 c.rd)
  · intro op hop rd hnoticed
    obtain ⟨v, hv, hfail⟩ := exists_storedVerdict_ne_ok hnoticed
    exact ⟨v, hv, mem_failures_storing f st (hmem hop hv) hfail⟩
  · intro cs hall
    rw [isSuccess_storing]
    exact fun c hc => storedVerdict_of_unnoticed (hall c hc)

end Storing

end FaultPlan

end AvrConform
