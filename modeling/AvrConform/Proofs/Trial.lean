import AvrConform.Proofs.Batch
import AvrConform.Proofs.Reference
import AvrConform.Proofs.Transfer
set_option autoImplicit false

namespace AvrConform

namespace Machine

/-- The machine in which a case is about to be stepped, with `w` where its word belongs. -/
def prepare (a : Arch) (c : Case) (w : Word) (m : Machine) : Machine :=
  (m.loadRegisters a (c.preset a)).stage w

theorem startPc_and_addressMask : startPc &&& addressMask = startPc := by decide

@[simp] theorem pc_prepare (a : Arch) (c : Case) (w : Word) (m : Machine) :
    (m.prepare a c w).pc = startPc := startPc_and_addressMask

theorem fetch_prepare (a : Arch) (c : Case) (w : Word) (m : Machine) :
    (m.prepare a c w).fetch (m.prepare a c w).pc = w := by
  have hpc : (m.prepare a c w).pc = (m.loadRegisters a (c.preset a)).pc := rfl
  rw [hpc, prepare, stage, fetch_store, if_pos rfl]

theorem toRegisterFile_prepare (a : Arch) (c : Case) (w : Word) (m : Machine) :
    (m.prepare a c w).toRegisterFile = (m.loadRegisters a (c.preset a)).toRegisterFile := rfl

theorem toRegisterFile_prepare_avr (c : Case) (w : Word) (m : Machine) :
    (m.prepare Arch.avr c w).toRegisterFile = c.preset Arch.avr := by
  rw [toRegisterFile_prepare, loadRegisters_avr, Case.pc_preset, startPc_and_addressMask]
  rfl

theorem toRegisterFile_execute_prepare (c : Case) (w : Word) (i : Instruction) (m : Machine) :
    ((m.prepare Arch.avr c w).execute i).toRegisterFile =
      { i.effect (c.preset Arch.avr) with pc := 0x0101#16 } := by
  rw [toRegisterFile_execute, toRegisterFile_prepare_avr, Case.pc_preset, Arch.nextPc_startPc_avr]

theorem call_prepare (a : Arch) (c : Case) (w : Word) (m : Machine) :
    (m.prepare a c w).call =
      match Instruction.decode w with
      | none => (.error ⟨w, startPc⟩, m.prepare a c w)
      | some i => (.ok (), (m.prepare a c w).execute i) := by
  have hf := fetch_prepare a c w m
  cases hd : Instruction.decode w with
  | none => rw [call_eq_error (by rw [hf, hd]), hf, pc_prepare]
  | some i => rw [call_eq_ok (by rw [hf, hd])]

end Machine

namespace Simulator

theorem value_observe_machine (a : Arch) (c : Case) (m : Machine) :
    (machine.observe a c m).value =
      (.ok (((m.prepare a c c.word).execute c.instruction).readRegisters a),
        (m.prepare a c c.word).execute c.instruction) := by
  have hword : Instruction.decode c.word = some c.instruction :=
    Instruction.decode_encode c.instruction
  have hstep : (machine.step (m.prepare a c c.word)).value =
      (.ok (), (m.prepare a c c.word).execute c.instruction) := by
    have h := m.call_prepare a c c.word
    rwa [hword] at h
  have hprepare : (machine.stage c.word (m.loadRegisters a (c.preset a))).value =
      m.prepare a c c.word := rfl
  rw [value_observe, value_machine_loadRegisters, hprepare, hstep]
  rfl

end Simulator

end AvrConform
