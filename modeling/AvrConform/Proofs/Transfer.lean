import AvrConform.Case
import AvrConform.Simulator.Basic
set_option autoImplicit false

namespace AvrConform

theorem Sreg.ext_get_iff {s t : Sreg} : s = t ↔ ∀ f : Flag, s.get f = t.get f :=
  ⟨fun h f => congrArg (fun u => get u f) h, ext_get⟩

theorem Sreg.and_not_eq_self_iff {s mask : Sreg} : s &&& ~~~mask = s ↔ s &&& mask = 0#8 := by
  have hflag : ∀ b k : Bool, (b && !k) = b ↔ (b && k) = false := by decide
  rw [ext_get_iff, ext_get_iff]
  simp only [get_and, get_not, get_zero, hflag]

namespace RegisterFile

theorem reg_foldl_setReg (rs : List Reg) (v : Reg → Byte) (f : RegisterFile) (q : Reg) :
    (rs.foldl (fun f r => f.setReg r (v r)) f).reg q =
      if rs.contains q then v q else f.reg q := by
  induction rs generalizing f with
  | nil => rfl
  | cons r rs ih =>
    rw [List.foldl_cons, ih, reg_setReg]
    by_cases hq : q ∈ rs
    · simp [hq]
    · by_cases hr : q = r <;> simp [hq, hr]

theorem reg_fill (a : Arch) (v : Reg → Byte) (f : RegisterFile) (q : Reg) :
    (a.regs.foldl (fun f r => f.setReg r (v r)) f).reg q =
      if q.val < a.registerCount then v q else f.reg q := by
  simp only [reg_foldl_setReg, List.contains_iff_mem, a.mem_regs_iff]

theorem ext_entries {f g : RegisterFile} (hr : ∀ r : Reg, f.reg r = g.reg r)
    (hs : f.sreg = g.sreg) (hp : f.pc = g.pc) : f = g := by
  apply ext_get
  intro i
  cases i with
  | gpr r => simp only [get, hr]
  | sreg => simp only [get, hs]
  | pc => exact hp

end RegisterFile

namespace Machine

theorem toRegisterFile_foldl_setRegister (rs : List Reg) (v : Reg → Byte) (m : Machine) :
    rs.foldl (fun m r => m.setRegister r (v r)) m =
      { m with
        toRegisterFile := rs.foldl (fun f r => f.setReg r (v r)) m.toRegisterFile } := by
  induction rs generalizing m with
  | nil => rfl
  | cons r rs ih => rw [List.foldl_cons, List.foldl_cons, ih]; rfl

theorem loadRegisters_eq (a : Arch) (f : RegisterFile) (m : Machine) :
    m.loadRegisters a f = { m with
      toRegisterFile := { a.regs.foldl (fun g r => g.setReg r (f.reg r)) m.toRegisterFile with
        sreg := f.sreg, pc := f.pc &&& addressMask } } := by
  rw [loadRegisters, toRegisterFile_foldl_setRegister]
  rfl

@[simp] theorem reg_loadRegisters (a : Arch) (f : RegisterFile) (m : Machine) (r : Reg) :
    (m.loadRegisters a f).reg r = if r.val < a.registerCount then f.reg r else m.reg r := by
  rw [loadRegisters_eq]
  exact RegisterFile.reg_fill a f.reg m.toRegisterFile r

@[simp] theorem sreg_loadRegisters (a : Arch) (f : RegisterFile) (m : Machine) :
    (m.loadRegisters a f).sreg = f.sreg := rfl

@[simp] theorem pc_loadRegisters (a : Arch) (f : RegisterFile) (m : Machine) :
    (m.loadRegisters a f).pc = f.pc &&& addressMask := rfl

@[simp] theorem reg_readRegisters (a : Arch) (m : Machine) (r : Reg) :
    (m.readRegisters a).reg r = if r.val < a.registerCount then m.reg r else 0#8 := by
  have h := RegisterFile.reg_fill a m.reg RegisterFile.zero r
  rwa [RegisterFile.reg_zero] at h

@[simp] theorem sreg_readRegisters (a : Arch) (m : Machine) : (m.readRegisters a).sreg = m.sreg := rfl

@[simp] theorem pc_readRegisters (a : Arch) (m : Machine) : (m.readRegisters a).pc = m.pc := rfl

/-- With all registers in the table a load takes over the whole file, the counter cut to the flash. -/
theorem loadRegisters_avr (f : RegisterFile) (m : Machine) :
    (m.loadRegisters Arch.avr f).toRegisterFile = { f with pc := f.pc &&& addressMask } := by
  apply RegisterFile.ext_entries
  · intro r
    have hr : r.val < Arch.avr.registerCount := r.isLt
    rw [reg_loadRegisters, if_pos hr]
    rfl
  · exact sreg_loadRegisters Arch.avr f m
  · exact pc_loadRegisters Arch.avr f m

theorem readRegisters_avr (m : Machine) : m.readRegisters Arch.avr = m.toRegisterFile := by
  apply RegisterFile.ext_entries
  · intro r
    have hr : r.val < Arch.avr.registerCount := r.isLt
    rw [reg_readRegisters, if_pos hr]
  · exact sreg_readRegisters Arch.avr m
  · exact pc_readRegisters Arch.avr m

end Machine

theorem Arch.nextPc_startPc_avr : avr.nextPc startPc = 0x0101#16 := by decide

namespace Case

@[simp] theorem reg_preset (a : Arch) (c : Case) (r : Reg) :
    (c.preset a).reg r =
      if r = c.rd then c.operand else if r.val < a.registerCount then background r else 0#8 := by
  have h := RegisterFile.reg_fill a background RegisterFile.zero r
  rw [RegisterFile.reg_zero] at h
  rw [← h]
  exact RegisterFile.reg_setReg _ c.rd r c.operand

@[simp] theorem sreg_preset (a : Arch) (c : Case) : (c.preset a).sreg = 0#8 := by
  rw [preset, profile]
  cases c.opcode <;> rfl

@[simp] theorem pc_preset (a : Arch) (c : Case) : (c.preset a).pc = startPc := rfl

def flags (c : Case) : Sreg := (Oracle.expected c.opcode c.operand 0#8).2

@[simp] theorem reg_expected (a : Arch) (c : Case) (f : RegisterFile) (r : Reg) :
    (c.expected a f).reg r =
      if r = c.rd then (Oracle.expected c.opcode (f.reg c.rd) f.sreg).1 else f.reg r :=
  RegisterFile.reg_setReg f c.rd r _

@[simp] theorem pc_expected (a : Arch) (c : Case) (f : RegisterFile) :
    (c.expected a f).pc = a.nextPc f.pc := rfl

theorem sreg_expected_preset (a : Arch) (c : Case) :
    (c.expected a (c.preset a)).sreg = c.flags &&& ~~~a.controlMask := by
  simp [expected, flags]

theorem flags_and_controlMask_avr (c : Case) : c.flags &&& Arch.avr.controlMask = 0#8 := by
  apply Sreg.ext_get
  intro f
  have hmask : Sreg.get Arch.avr.controlMask f = decide (f ∈ [Flag.bitCopy, Flag.interrupt]) :=
    Sreg.get_ofFlags _ f
  rw [Sreg.get_and, Sreg.get_zero, flags, Oracle.get_expected, hmask]
  by_cases hf : f ∈ [Flag.bitCopy, Flag.interrupt]
  · rw [if_neg (Oracle.control_notMem_writes c.opcode f hf), Sreg.get_zero, Bool.false_and]
  · rw [decide_eq_false hf, Bool.and_false]

end Case

end AvrConform
