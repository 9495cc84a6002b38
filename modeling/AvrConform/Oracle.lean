import AvrConform.Instruction
import AvrConform.Sreg
set_option autoImplicit false

/-! The instruction set as its manual tabulates it, written down apart from the machine: each result by
arithmetic on the operand, each flag by its formula, and for every opcode the flags it writes. -/

namespace AvrConform

namespace Oracle

def writes : Opcode → List Flag
  | .com => [.carry, .zero, .negative, .overflow, .sign]
  | .neg => [.carry, .zero, .negative, .overflow, .sign, .halfCarry]
  | .swap => []
  | .inc => [.zero, .negative, .overflow, .sign]
  | .asr => [.carry, .zero, .negative, .overflow, .sign]
  | .lsr => [.carry, .zero, .negative, .overflow, .sign]
  | .ror => [.carry, .zero, .negative, .overflow, .sign]
  | .dec => [.zero, .negative, .overflow, .sign]

theorem control_notMem_writes (op : Opcode) : ∀ f ∈ [Flag.bitCopy, .interrupt], f ∉ writes op := by
  cases op <;> decide

theorem halfCarry_mem_writes_iff {op : Opcode} : .halfCarry ∈ writes op ↔ op = .neg := by
  cases op <;> decide

def pack (fs : List (Flag × Bool)) : Byte :=
  fs.foldl (fun s p => s ||| ((BitVec.ofBool p.2).setWidth 8 <<< p.1.bit)) 0#8

def resultFlags (res : Byte) (overflow : Bool) : List (Flag × Bool) :=
  [(.zero, res == 0#8), (.negative, res.msb), (.overflow, overflow), (.sign, res.msb != overflow)]

def shiftFlags (res : Byte) (out : Bool) : Byte :=
  pack ((.carry, out) :: resultFlags res (res.msb != out))

/-- The result and the values of the written flags, with the others clear. -/
def compute (op : Opcode) (v : Byte) (s : Sreg) : Byte × Byte :=
  match op with
  | .com =>
    let res := 0xff#8 - v
    (res, pack ((.carry, true) :: resultFlags res false))
  | .neg =>
    let res := -v
    (res, pack ((.halfCarry, (res ||| v).getLsbD 3) :: (.carry, res != 0#8) ::
      resultFlags res (res == 0x80#8)))
  | .swap => (v <<< 4 ||| v >>> 4, 0#8)
  | .inc =>
    let res := v + 1#8
    (res, pack (resultFlags res (res == 0x80#8)))
  | .dec =>
    let res := v - 1#8
    (res, pack (resultFlags res (res == 0x7f#8)))
  | .asr =>
    let res := v >>> 1 ||| (v &&& 0x80#8)
    (res, shiftFlags res (v.getLsbD 0))
  | .lsr =>
    let res := v >>> 1
    (res, shiftFlags res (v.getLsbD 0))
  | .ror =>
    let res := v >>> 1 ||| ((s >>> Flag.carry.bit) &&& 1#8) <<< 7
    (res, shiftFlags res (v.getLsbD 0))

/-- What the register and the status register should hold after `op` on `v` with the status `s`. -/
def expected (op : Opcode) (v : Byte) (s : Sreg) : Byte × Sreg :=
  let out := compute op v s
  let mask := Sreg.ofFlags (writes op)
  (out.1, (s &&& ~~~mask) ||| (out.2 &&& mask))

theorem get_pack (fs : List (Flag × Bool)) (f : Flag) :
    Sreg.get (pack fs) f = fs.any (fun p => p.1 = f && p.2) := by
  have bit : ∀ (g : Flag) (v : Bool),
      Sreg.get ((BitVec.ofBool v).setWidth 8 <<< g.bit) f = (decide (g = f) && v) := by
    intro g v
    cases g <;> cases f <;> cases v <;> decide
  have h : ∀ s : Sreg,
      Sreg.get (fs.foldl (fun s p => s ||| ((BitVec.ofBool p.2).setWidth 8 <<< p.1.bit)) s) f =
        (s.get f || fs.any (fun p => p.1 = f && p.2)) := by
    induction fs with
    | nil => simp
    | cons p fs ih =>
      intro s
      rw [List.foldl_cons, ih, Sreg.get_or, bit, List.any_cons, Bool.or_assoc]
  rw [pack, h, Sreg.get_zero, Bool.false_or]

theorem get_expected (op : Opcode) (v : Byte) (s : Sreg) (f : Flag) :
    Sreg.get (expected op v s).2 f =
      if f ∈ writes op then Sreg.get (compute op v s).2 f else s.get f := by
  simp only [expected, Sreg.get_or, Sreg.get_and, Sreg.get_not, Sreg.get_ofFlags]
  by_cases h : f ∈ writes op <;> simp [h]

theorem expected_snd_of_writes_eq_nil {op : Opcode} (h : writes op = []) (v : Byte) (s : Sreg) :
    (expected op v s).2 = s := by
  apply Sreg.ext_get
  intro f
  rw [get_expected, h, if_neg List.not_mem_nil]

end Oracle

end AvrConform
