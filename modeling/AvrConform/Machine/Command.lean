import AvrConform.Machine.Event
set_option autoImplicit false

namespace AvrConform

inductive Command where
  | readRegister : Reg → Command
  | writeRegister : Reg → Byte → Command
  | readCounter : Command
  | setCounter : Word → Command
  /-- Moves the counter, modulo the size of a word, before it is cut to the flash. -/
  | addCounter : Word → Command
  | readStatus : Command
  | setStatus : Sreg → Command
  | toggleStatus : Byte → Command
  | setFlag : Flag → Bool → Command
  | stage : Word → Command
  | loadImage : List Word → Word → Command
  | readFlash : Word → Command
  | writeFlash : Word → Word → Command
  | step : Command
  | run : Nat → Command
  | loadRegisters : Arch → RegisterFile → Command
  | readRegisters : Arch → Command
  | countInstruction : Command

inductive Reply where
  | done : Reply
  | byte : Byte → Reply
  | word : Word → Reply
  | status : Sreg → Reply
  | registers : RegisterFile → Reply
  | failed : InvalidInstruction → Reply

namespace Command

def apply : Command → Machine → Machine
  | .readRegister _, m => m
  | .writeRegister r v, m => m.setRegister r v
  | .readCounter, m => m
  | .setCounter w, m => m.setCounter w
  | .addCounter w, m => m.setCounter (m.pc + w)
  | .readStatus, m => m
  | .setStatus s, m => m.setStatus s
  | .toggleStatus b, m => m.setStatus (m.sreg ^^^ b)
  | .setFlag f v, m => m.setStatus (m.sreg.set f v)
  | .stage w, m => m.stage w
  | .loadImage ws start, m => m.loadImage ws start
  | .readFlash _, m => m
  | .writeFlash a w, m => m.store a w
  | .step, m => (m.run 1).2
  | .run n, m => (m.run n).2
  | .loadRegisters a f, m => m.loadRegisters a f
  | .readRegisters _, m => m
  | .countInstruction, m => m.countInstruction

def reply : Command → Machine → Reply
  | .readRegister r, m => .byte (m.reg r)
  | .readCounter, m => .word m.pc
  | .readStatus, m => .status m.sreg
  | .readFlash a, m => .word (m.fetch a)
  | .readRegisters a, m => .registers (m.readRegisters a)
  | .step, m => ofRun (m.run 1).1
  | .run n, m => ofRun (m.run n).1
  | _, _ => .done
where
  ofRun : Option InvalidInstruction → Reply
    | none => .done
    | some e => .failed e

def events : Command → Machine → List Machine.Event
  | .writeRegister r v, _ => [.registerWritten r v]
  | .setCounter w, _ => [.counterWritten w]
  | .addCounter w, m => [.counterWritten (m.pc + w)]
  | .setStatus s, _ => [.statusWritten s]
  | .toggleStatus b, m => [.statusWritten (m.sreg ^^^ b)]
  | .stage w, m => [.flashWritten m.pc w]
  | .loadImage ws start, _ => Machine.imageEvents ws start
  | .writeFlash a w, _ => [.flashWritten a w]
  | .step, m => m.runEvents 1
  | .run n, m => m.runEvents n
  | .loadRegisters a f, _ => Machine.loadEvents a f
  | _, _ => []

end Command

end AvrConform
