import AvrConform.Proofs.Arithmetic
import AvrConform.Simulator.Basic
set_option autoImplicit false

namespace AvrConform

theorem toNat_and_addressMask (a : Word) : (a &&& addressMask).toNat = a.toNat % flashWords := by
  rw [BitVec.toNat_and]
  exact Nat.and_two_pow_sub_one_eq_mod a.toNat 14

theorem val_cell (a : Word) : (cell a).val = a.toNat % flashWords := toNat_and_addressMask a

theorem set_eq_setIfInBounds {α : Type} {n i : Nat} (xs : Vector α n) (x : α) (hi : i < n) :
    xs.set i x hi = xs.setIfInBounds i x := by
  apply Vector.ext
  intro j hj
  rw [Vector.getElem_set, Vector.getElem_setIfInBounds]

/-- What an instruction makes of a register file by the manual. The counter is left where it is. -/
def Instruction.effect (f : RegisterFile) : Instruction → RegisterFile
  | .nop => f
  | .unary op rd =>
    let out := Oracle.expected op (f.gprs.get rd) f.sreg
    { f with gprs := f.gprs.setIfInBounds rd.val out.1, sreg := out.2 }

@[simp] theorem Instruction.reg_effect_unary (f : RegisterFile) (op : Opcode) (rd r : Reg) :
    ((Instruction.unary op rd).effect f).reg r =
      if r = rd then (Oracle.expected op (f.reg rd) f.sreg).1 else f.reg r := by
  have hset := RegisterFile.reg_setReg f rd r (Oracle.expected op (f.reg rd) f.sreg).1
  rwa [RegisterFile.setReg, set_eq_setIfInBounds] at hset

@[simp] theorem Instruction.sreg_effect_unary (f : RegisterFile) (op : Opcode) (rd : Reg) :
    ((Instruction.unary op rd).effect f).sreg = (Oracle.expected op (f.reg rd) f.sreg).2 := rfl

@[simp] theorem Instruction.pc_effect (f : RegisterFile) (i : Instruction) :
    (i.effect f).pc = f.pc := by
  cases i <;> rfl

/-- The answers to `n` calls and the state after them. A call that fails does not keep the next one from
being made. -/
def calls {σ ε : Type} (call : σ → Except ε Unit × σ) (n : Nat) (st : σ) :
    List (Except ε Unit) × σ :=
  match n with
  | 0 => ([], st)
  | n + 1 =>
    let (answer, st) := call st
    let (answers, st) := calls call n st
    (answer :: answers, st)

theorem calls_succ {σ ε : Type} {call : σ → Except ε Unit × σ} {st st' : σ} {answer : Except ε Unit}
    (h : call st = (answer, st')) (n : Nat) :
    calls call (n + 1) st = (answer :: (calls call n st').1, (calls call n st').2) := by
  simp only [calls, h]

/-- Two calls that agree wherever an invariant holds cannot be told apart by calling them. -/
theorem calls_congr {σ ε : Type} {call call' : σ → Except ε Unit × σ} (inv : σ → Prop)
    (hagree : ∀ st, inv st → call st = call' st) (hkeep : ∀ st, inv st → inv (call st).2)
    (n : Nat) {st : σ} (h : inv st) : calls call n st = calls call' n st := by
  induction n generalizing st with
  | zero => rfl
  | succ n ih =>
    have hrest := ih (hkeep st h)
    simp only [calls, ← hagree st h, hrest]

namespace Machine

def call (m : Machine) : Except InvalidInstruction Unit × Machine := (Simulator.machine.step m).value

/-- One step by the manual, on a machine whose counter points into its flash. -/
def manualStep (m : Machine) : Except InvalidInstruction Unit × Machine :=
  let word := m.flash[m.pc.toNat]?.getD 0#16
  match Instruction.decode word with
  | none => (.error ⟨word, m.pc⟩, m)
  | some i =>
    (.ok (), { m with
      toRegisterFile := { i.effect m.toRegisterFile with pc := Arch.avr.nextPc m.pc }
      executed := m.executed + 1 })

theorem call_of_step_eq_error {m : Machine} {e : InvalidInstruction} (h : m.step = .error e) :
    m.call = (.error e, m) := by
  simp only [call, Simulator.machine, h]

theorem call_of_step_eq_ok {m m' : Machine} (h : m.step = .ok m') : m.call = (.ok (), m') := by
  simp only [call, Simulator.machine, h]

theorem call_eq_error {m : Machine} (h : Instruction.decode (m.fetch m.pc) = none) :
    m.call = (.error ⟨m.fetch m.pc, m.pc⟩, m) := call_of_step_eq_error (step_eq_error h)

theorem call_eq_ok {m : Machine} {i : Instruction}
    (h : Instruction.decode (m.fetch m.pc) = some i) : m.call = (.ok (), m.execute i) :=
  call_of_step_eq_ok (step_eq_ok h)

theorem operate_eq_effect (m : Machine) (i : Instruction) :
    m.operate i = { m with toRegisterFile := i.effect m.toRegisterFile } := by
  cases i with
  | nop => rfl
  | unary op rd =>
    simp only [operate, Opcode.execute_eq_expected, setRegister, RegisterFile.setReg, set_eq_setIfInBounds]
    rfl

theorem execute_eq_effect (m : Machine) (i : Instruction) :
    m.execute i = { m with
      toRegisterFile := { i.effect m.toRegisterFile with pc := Arch.avr.nextPc m.pc }
      executed := m.executed + 1 } := by
  rw [execute, operate_eq_effect]
  cases i <;> rfl

theorem toRegisterFile_execute (m : Machine) (i : Instruction) :
    (m.execute i).toRegisterFile =
      { i.effect m.toRegisterFile with pc := Arch.avr.nextPc m.pc } := by
  rw [execute_eq_effect]

@[simp] theorem pc_execute (m : Machine) (i : Instruction) :
    (m.execute i).pc = Arch.avr.nextPc m.pc := by
  rw [execute_eq_effect]

@[simp] theorem reg_execute_unary (m : Machine) (op : Opcode) (rd r : Reg) :
    (m.execute (.unary op rd)).reg r =
      if r = rd then (Oracle.expected op (m.reg rd) m.sreg).1 else m.reg r := by
  rw [execute_eq_effect]
  exact Instruction.reg_effect_unary m.toRegisterFile op rd r

@[simp] theorem sreg_execute_unary (m : Machine) (op : Opcode) (rd : Reg) :
    (m.execute (.unary op rd)).sreg = (Oracle.expected op (m.reg rd) m.sreg).2 := by
  rw [execute_eq_effect]
  rfl

theorem fetch_pc {m : Machine} (h : m.pc.toNat < flashWords) :
    m.fetch m.pc = m.flash[m.pc.toNat]?.getD 0#16 := by
  have hc : (cell m.pc).val = m.pc.toNat := by rw [val_cell, Nat.mod_eq_of_lt h]
  simp [fetch, hc, h]

theorem call_eq_manualStep {m : Machine} (h : m.pc.toNat < flashWords) : m.call = m.manualStep := by
  rw [manualStep, ← fetch_pc h]
  cases hd : Instruction.decode (m.fetch m.pc) with
  | none => exact call_eq_error hd
  | some i => rw [call_eq_ok hd, execute_eq_effect]

theorem call_pc_lt {m : Machine} (h : m.pc.toNat < flashWords) : m.call.2.pc.toNat < flashWords := by
  cases hd : Instruction.decode (m.fetch m.pc) with
  | none => rwa [call_eq_error hd]
  | some i =>
    rw [call_eq_ok hd, execute_eq_effect]
    exact and_addressMask_lt (m.pc + 1#16)

theorem calls_eq_manual (m : Machine) (h : m.pc.toNat < flashWords) (n : Nat) :
    calls call n m = calls manualStep n m :=
  calls_congr (fun m => m.pc.toNat < flashWords) (fun _ h => call_eq_manualStep h)
    (fun _ h => call_pc_lt h) n h

/-- A rotation in the last cell of the flash, and in the first a word that is no instruction. -/
def rotateThenStop : Machine :=
  (((initial.store 0x3fff#16 0x9517#16).store 0#16 0xffff#16).setStatus 0xc1#8).setCounter 0x3fff#16

theorem fetch_rotateThenStop :
    rotateThenStop.fetch 0x3fff#16 = 0x9517#16 ∧ rotateThenStop.fetch 0#16 = 0xffff#16 := by
  have hflash : ∀ a, rotateThenStop.fetch a =
      ((initial.store 0x3fff#16 0x9517#16).store 0#16 0xffff#16).fetch a := fun _ => rfl
  rw [hflash, hflash, fetch_store, if_neg (by decide), fetch_store, if_pos rfl, fetch_store, if_pos rfl]
  exact ⟨rfl, rfl⟩

theorem step_rotateThenStop {m : Machine} (hflash : m.flash = rotateThenStop.flash)
    (hpc : m.pc = 0x3fff#16) :
    m.step = .ok (m.execute (.unary .ror 17)) ∧ (m.execute (.unary .ror 17)).pc = 0#16 ∧
      (m.execute (.unary .ror 17)).step = .error ⟨0xffff#16, 0#16⟩ := by
  have hfetch : ∀ a, m.fetch a = rotateThenStop.fetch a := by simp only [fetch, hflash, implies_true]
  have hrotate : m.fetch m.pc = 0x9517#16 := by rw [hpc, hfetch, fetch_rotateThenStop.1]
  have hcounter : (m.execute (.unary .ror 17)).pc = 0#16 := by
    rw [pc_execute, hpc]
    rfl
  have hstop : (m.execute (.unary .ror 17)).fetch 0#16 = 0xffff#16 :=
    (hfetch 0#16).trans fetch_rotateThenStop.2
  refine ⟨step_eq_ok ?_, hcounter, ?_⟩
  · rw [hrotate]
    decide
  · rw [step_eq_error, hcounter, hstop]
    rw [hcounter, hstop]
    decide

/-- The rotation shifts a one out and another one in; both calls after it are refused alike. -/
theorem calls_rotateThenStop :
    let m := rotateThenStop.setRegister 17 0x03#8
    let after := (calls call 3 m).2
    m.pc.toNat < flashWords ∧ calls call 3 m = calls manualStep 3 m ∧
      (calls call 3 m).1 = [.ok (), .error ⟨0xffff#16, 0#16⟩, .error ⟨0xffff#16, 0#16⟩] ∧
      after.gprs.get 16 = 0#8 ∧ after.gprs.get 17 = 0x81#8 ∧ after.sreg = 0xd5#8 ∧ after.pc = 0#16 ∧
      after.executed = 1 ∧ after.flash = m.flash := by
  intro m after
  have hpc : m.pc.toNat < flashWords := by decide
  have hcalls : calls call 3 m = calls manualStep 3 m := calls_eq_manual m hpc 3
  obtain ⟨hrotate, hcounter, hstop⟩ : m.step = .ok (m.execute (.unary .ror 17)) ∧ _ :=
    step_rotateThenStop rfl rfl
  have hrefused := call_of_step_eq_error hstop
  have hend : calls call 3 m =
      ([.ok (), .error ⟨0xffff#16, 0#16⟩, .error ⟨0xffff#16, 0#16⟩], m.execute (.unary .ror 17)) := by
    rw [calls_succ (call_of_step_eq_ok hrotate), calls_succ hrefused, calls_succ hrefused]
    rfl
  have hafter : after = m.execute (.unary .ror 17) := congrArg Prod.snd hend
  refine ⟨hpc, hcalls, congrArg Prod.fst hend, ?_⟩
  rw [hafter]
  exact ⟨by decide, by decide, by decide, hcounter, rfl, rfl⟩

end Machine

end AvrConform
