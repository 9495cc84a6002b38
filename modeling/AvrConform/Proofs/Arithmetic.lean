import AvrConform.Machine.Step
import AvrConform.Oracle
set_option autoImplicit false

/-! The machine computes results from shifts and writes flags one at a time; the oracle has its own
arithmetic and packs all flags into one byte. `Opcode.execute_eq_expected` says that they agree on every
opcode, operand and status register. -/

namespace AvrConform

open Oracle (pack resultFlags shiftFlags compute writes)

theorem Sreg.get_setResult (s : Sreg) (res : Byte) (overflow : Bool) (f : Flag) :
    (s.setResult res overflow).get f =
      if f ∈ [.zero, .negative, .overflow, .sign] then get (pack (resultFlags res overflow)) f
      else s.get f := by
  have hm : res.getLsbD 7 = res.msb := by rw [BitVec.msb_eq_getLsbD_last]
  rw [Oracle.get_pack, setResult, hm]
  cases f <;> simp [resultFlags]

theorem Sreg.get_setResult_carry (s : Sreg) (res : Byte) (overflow out : Bool) (f : Flag) :
    ((s.setResult res overflow).set .carry out).get f =
      if f ∈ [.carry, .zero, .negative, .overflow, .sign] then
        get (pack ((.carry, out) :: resultFlags res overflow)) f
      else s.get f := by
  rw [get_set, get_setResult, Oracle.get_pack, Oracle.get_pack]
  cases f <;> simp [resultFlags]

namespace Opcode

theorem execute_fst (op : Opcode) (v : Byte) (s : Sreg) :
    (op.execute v s).1 = (compute op v s).1 := by
  cases op with
  | com =>
    have h : ∀ v : Byte, ~~~v = 0xff#8 - v := by decide
    exact h v
  | neg => exact BitVec.zero_sub v
  | swap => rfl
  | inc => rfl
  | dec => rfl
  | asr =>
    have h : ∀ v : Byte, v.sshiftRight 1 = v >>> 1 ||| (v &&& 0x80#8) := by decide
    exact h v
  | lsr => rfl
  | ror =>
    have h : ∀ s : Sreg,
        (if s.get .carry then 0x80#8 else 0#8) = ((s >>> Flag.carry.bit) &&& 1#8) <<< 7 := by
      decide
    simp only [execute, compute, h s]

/-- `inc` and `dec` decide overflow from the operand and the oracle from the result; `lsr` takes the carry
alone, because its result is never negative. -/
theorem get_execute (op : Opcode) (v : Byte) (s : Sreg) (f : Flag) :
    (op.execute v s).2.get f =
      if f ∈ writes op then Sreg.get (compute op v s).2 f else s.get f := by
  have hres := execute_fst op v s
  cases op with
  | com =>
    simp only [execute, compute] at hres ⊢
    rw [hres]
    exact Sreg.get_setResult_carry s _ false true f
  | neg =>
    simp only [execute, compute] at hres ⊢
    rw [hres, Sreg.get_set, Sreg.get_setResult_carry, Oracle.get_pack, Oracle.get_pack]
    cases f <;> simp [writes, resultFlags]
  | swap => simp [execute, writes]
  | inc =>
    have h : ∀ v : Byte, (v == 0x7f#8) = (v + 1#8 == 0x80#8) := by decide
    simp only [execute, compute]
    rw [h]
    exact Sreg.get_setResult s _ _ f
  | dec =>
    have h : ∀ v : Byte, (v == 0x80#8) = (v - 1#8 == 0x7f#8) := by decide
    simp only [execute, compute]
    rw [h]
    exact Sreg.get_setResult s _ _ f
  | asr =>
    simp only [execute, compute] at hres ⊢
    rw [hres]
    exact Sreg.get_setResult_carry s _ _ _ f
  | lsr =>
    have h : ∀ v : Byte, v.getLsbD 0 = ((v >>> 1).msb != v.getLsbD 0) := by decide
    simp only [execute, compute, shiftFlags]
    rw [← h]
    exact Sreg.get_setResult_carry s _ _ _ f
  | ror =>
    simp only [execute, compute] at hres ⊢
    rw [hres]
    exact Sreg.get_setResult_carry s _ _ _ f

theorem execute_eq_expected (op : Opcode) (v : Byte) (s : Sreg) :
    op.execute v s = Oracle.expected op v s := by
  apply Prod.ext
  · exact execute_fst op v s
  · apply Sreg.ext_get
    intro f
    rw [get_execute, Oracle.get_expected]

end Opcode

end AvrConform
