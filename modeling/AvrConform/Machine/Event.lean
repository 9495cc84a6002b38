import AvrConform.Machine.Step
import AvrConform.Journal.Level
set_option autoImplicit false

/-! What a machine reports of its own doings. Every write is reported before it is cut to the size of
the machine, so a flash address or a counter may be out of range in a report. The flags that an
instruction writes are not reported one by one: the status register it leaves is. -/

namespace AvrConform

inductive Machine.Event where
  | flashWritten : Word → Word → Machine.Event
  | registerWritten : Reg → Byte → Machine.Event
  | counterWritten : Word → Machine.Event
  | statusWritten : Sreg → Machine.Event
  | executing : Word → Instruction → Machine.Event
  | statusLeft : Sreg → Machine.Event
  deriving DecidableEq

namespace Machine.Event

def level : Machine.Event → Level
  | .executing _ _ => .debug
  | _ => .trace

def wire : Machine.Event → List Char
  | .flashWritten a w => "Flash: writing ".toList ++ w.wire ++ " to ".toList ++ a.wire
  | .registerWritten r v => "Reg: writing ".toList ++ v.wire ++ " to ".toList ++ r.wire
  | .counterWritten pc => "PC: set to ".toList ++ pc.wire
  | .statusWritten s => "SREG: set to ".toList ++ s.wire
  | .executing pc i => "PC: ".toList ++ pc.wire ++ ": ".toList ++ i.wire
  | .statusLeft s => "SREG: ".toList ++ s.wire

end Machine.Event

namespace Machine

def imageEvents (ws : List Word) (start : Word) : List Event :=
  match ws with
  | [] => []
  | w :: rest => .flashWritten start w :: imageEvents rest (start + 1#16)

def loadEvents (a : Arch) (f : RegisterFile) : List Event :=
  a.regs.map (fun r => .registerWritten r (f.reg r)) ++ [.statusWritten f.sreg, .counterWritten f.pc]

def operateEvents (m : Machine) : Instruction → List Event
  | .nop => []
  | .unary op rd => [.registerWritten rd (op.execute (m.reg rd) m.sreg).1]

/-- A step that fails reports nothing. -/
def stepEvents (m : Machine) : List Event :=
  match Instruction.decode (m.fetch m.pc) with
  | none => []
  | some i =>
    .executing m.pc i :: .counterWritten (m.pc + i.size) :: m.operateEvents i ++
      [.statusLeft (m.execute i).sreg]

def runEvents (n : Nat) (m : Machine) : List Event :=
  match n with
  | 0 => []
  | n + 1 =>
    match m.step with
    | .error _ => []
    | .ok m' => m.stepEvents ++ m'.runEvents n

end Machine

end AvrConform
