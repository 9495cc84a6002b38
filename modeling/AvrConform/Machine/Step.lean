import AvrConform.Machine.Basic
set_option autoImplicit false

namespace AvrConform

def Opcode.execute (op : Opcode) (v : Byte) (s : Sreg) : Byte × Sreg :=
  match op with
  | .com => (~~~v, (s.setResult (~~~v) false).set .carry true)
  | .neg =>
    let res := 0#8 - v
    (res, ((s.setResult res (res == 0x80#8)).set .carry (res != 0#8)).set .halfCarry
      (res.getLsbD 3 || v.getLsbD 3))
  | .swap => (v.rotateLeft 4, s)
  | .inc =>
    let res := v + 1#8
    (res, s.setResult res (v == 0x7f#8))
  | .dec =>
    let res := v - 1#8
    (res, s.setResult res (v == 0x80#8))
  | .asr =>
    let res := v.sshiftRight 1
    let out := v.getLsbD 0
    (res, (s.setResult res (res.getLsbD 7 != out)).set .carry out)
  | .lsr =>
    let out := v.getLsbD 0
    (v >>> 1, (s.setResult (v >>> 1) out).set .carry out)
  | .ror =>
    let res := v >>> 1 ||| (if s.get .carry then 0x80#8 else 0#8)
    let out := v.getLsbD 0
    (res, (s.setResult res (res.getLsbD 7 != out)).set .carry out)

namespace Machine

def operate (m : Machine) : Instruction → Machine
  | .nop => m
  | .unary op rd =>
    let out := op.execute (m.reg rd) m.sreg
    (m.setStatus out.2).setRegister rd out.1

def execute (m : Machine) (i : Instruction) : Machine :=
  (m.countInstruction.setCounter (m.pc + i.size)).operate i

def step (m : Machine) : Except InvalidInstruction Machine :=
  match Instruction.decode (m.fetch m.pc) with
  | none => .error ⟨m.fetch m.pc, m.pc⟩
  | some i => .ok (m.execute i)

/-- At most `n` steps, up to the first that fails, with the error of that one. -/
def run (n : Nat) (m : Machine) : Option InvalidInstruction × Machine :=
  match n with
  | 0 => (none, m)
  | n + 1 =>
    match m.step with
    | .error e => (some e, m)
    | .ok m' => m'.run n

theorem step_eq_ok {m : Machine} {i : Instruction}
    (h : Instruction.decode (m.fetch m.pc) = some i) : m.step = .ok (m.execute i) := by
  rw [step, h]

theorem step_eq_error {m : Machine} (h : Instruction.decode (m.fetch m.pc) = none) :
    m.step = .error ⟨m.fetch m.pc, m.pc⟩ := by
  rw [step, h]

@[simp] theorem operate_pc (m : Machine) (i : Instruction) : (m.operate i).pc = m.pc := by
  cases i <;> rfl

@[simp] theorem operate_flash (m : Machine) (i : Instruction) : (m.operate i).flash = m.flash := by
  cases i <;> rfl

@[simp] theorem operate_executed (m : Machine) (i : Instruction) :
    (m.operate i).executed = m.executed := by
  cases i <;> rfl

end Machine

end AvrConform
