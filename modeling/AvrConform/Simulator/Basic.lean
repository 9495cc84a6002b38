import AvrConform.Journal.Logged
set_option autoImplicit false

namespace AvrConform

structure Simulator (σ ε : Type) where
  setRegister : Reg → Byte → σ → Logged σ
  setStatus : Sreg → σ → Logged σ
  setCounter : Word → σ → Logged σ
  stage : Word → σ → Logged σ
  step : σ → Logged (Except ε Unit × σ)
  register : σ → Reg → Byte
  status : σ → Sreg
  counter : σ → Word
  describe : ε → String

namespace Simulator

variable {σ ε : Type}

def loadRegisters (s : Simulator σ ε) (a : Arch) (f : RegisterFile) (st : σ) : Logged σ := do
  let st ← a.regs.foldlM (fun st r => s.setRegister r (f.reg r) st) st
  let st ← s.setStatus f.sreg st
  s.setCounter f.pc st

def readRegisters (s : Simulator σ ε) (a : Arch) (st : σ) : RegisterFile :=
  { a.regs.foldl (fun f r => f.setReg r (s.register st r)) RegisterFile.zero with
    sreg := s.status st, pc := s.counter st }

def machine : Simulator Machine InvalidInstruction where
  setRegister r v m := ⟨m.setRegister r v, [.machine (.registerWritten r v)]⟩
  setStatus s m := ⟨m.setStatus s, [.machine (.statusWritten s)]⟩
  setCounter pc m := ⟨m.setCounter pc, [.machine (.counterWritten pc)]⟩
  stage w m := ⟨m.stage w, [.machine (.flashWritten m.pc w)]⟩
  step m :=
    match m.step with
    | .error e => ⟨(.error e, m), m.stepEvents.map .machine⟩
    | .ok m' => ⟨(.ok (), m'), m.stepEvents.map .machine⟩
  register m r := m.reg r
  status m := m.sreg
  counter m := m.pc
  describe e := String.ofList e.wire

theorem value_machine_loadRegisters (a : Arch) (f : RegisterFile) (m : Machine) :
    (machine.loadRegisters a f m).value = m.loadRegisters a f := by
  simp only [loadRegisters, Logged.value_bind, Logged.value_foldlM]
  rfl

theorem entries_machine_loadRegisters (a : Arch) (f : RegisterFile) (m : Machine) :
    (machine.loadRegisters a f m).entries = (Machine.loadEvents a f).map .machine := by
  have h : ∀ (rs : List Reg) (m : Machine),
      (rs.foldlM (fun st r => machine.setRegister r (f.reg r) st) m).entries =
        rs.map (fun r => Entry.machine (.registerWritten r (f.reg r))) := by
    intro rs
    induction rs with
    | nil => exact fun _ => rfl
    | cons r rs ih =>
      intro m
      rw [List.foldlM_cons, Logged.entries_bind, ih]
      rfl
  simp only [loadRegisters, Logged.entries_bind, h, Machine.loadEvents, List.map_append,
    List.map_map]
  rfl

theorem machine_readRegisters (a : Arch) (m : Machine) :
    machine.readRegisters a m = m.readRegisters a := rfl

end Simulator

end AvrConform
