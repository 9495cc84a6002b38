import AvrConform.Proofs.Reference
import AvrConform.Proofs.Transfer
set_option autoImplicit false

namespace AvrConform

theorem and_addressMask_eq_self_iff {a : Word} : a &&& addressMask = a ↔ a.toNat < flashWords := by
  rw [← BitVec.toNat_inj, toNat_and_addressMask]
  constructor
  · intro h
    rw [← h]
    exact Nat.mod_lt _ (by decide)
  · exact Nat.mod_eq_of_lt

/-- What a machine gives back of a register file: zero for the registers outside the table, and the counter
cut to the flash. -/
def Arch.returned (a : Arch) (f : RegisterFile) : RegisterFile where
  gprs := Vector.ofFn (fun r : Reg => if r.val < a.registerCount then f.reg r else 0#8)
  sreg := f.sreg
  pc := f.pc &&& addressMask

@[simp] theorem Arch.reg_returned (a : Arch) (f : RegisterFile) (r : Reg) :
    (a.returned f).reg r = if r.val < a.registerCount then f.reg r else 0#8 := by
  simp [returned, RegisterFile.reg]

@[simp] theorem Arch.sreg_returned (a : Arch) (f : RegisterFile) : (a.returned f).sreg = f.sreg := by
  simp only [returned]

@[simp] theorem Arch.pc_returned (a : Arch) (f : RegisterFile) :
    (a.returned f).pc = f.pc &&& addressMask := by
  simp only [returned]

namespace Machine

theorem ext_entries {m m' : Machine} (hr : ∀ r : Reg, m.reg r = m'.reg r) (hs : m.sreg = m'.sreg)
    (hp : m.pc = m'.pc) (hflash : m.flash = m'.flash) (hexecuted : m.executed = m'.executed) : m = m' := by
  have hfile : m.toRegisterFile = m'.toRegisterFile := RegisterFile.ext_entries hr hs hp
  cases m
  cases m'
  cases hfile
  cases hflash
  cases hexecuted
  rfl

@[simp] theorem flash_loadRegisters (a : Arch) (f : RegisterFile) (m : Machine) :
    (m.loadRegisters a f).flash = m.flash := by
  rw [loadRegisters_eq]

@[simp] theorem executed_loadRegisters (a : Arch) (f : RegisterFile) (m : Machine) :
    (m.loadRegisters a f).executed = m.executed := by
  rw [loadRegisters_eq]

theorem reg_loadRegisters_of_le {a : Arch} {r : Reg} (h : a.registerCount ≤ r.val) (f : RegisterFile)
    (m : Machine) : (m.loadRegisters a f).reg r = m.reg r := by
  rw [reg_loadRegisters, if_neg (Nat.not_lt.mpr h)]

theorem readRegisters_loadRegisters (a : Arch) (f : RegisterFile) (m : Machine) :
    (m.loadRegisters a f).readRegisters a = a.returned f := by
  apply RegisterFile.ext_entries
  · intro r
    rw [reg_readRegisters, reg_loadRegisters, Arch.reg_returned]
    split <;> rfl
  · rw [sreg_readRegisters, sreg_loadRegisters, Arch.sreg_returned]
  · rw [pc_readRegisters, pc_loadRegisters, Arch.pc_returned]

/-- Of the machine that is loaded only what the load does not write makes a difference. -/
theorem loadRegisters_congr {a : Arch} {m m' : Machine}
    (hr : ∀ r : Reg, a.registerCount ≤ r.val → m.reg r = m'.reg r) (hflash : m.flash = m'.flash)
    (hexecuted : m.executed = m'.executed) (f : RegisterFile) :
    m.loadRegisters a f = m'.loadRegisters a f := by
  apply ext_entries
  · intro r
    rw [reg_loadRegisters, reg_loadRegisters]
    split
    · rfl
    · next hr' => exact hr r (Nat.not_lt.mp hr')
  · rw [sreg_loadRegisters, sreg_loadRegisters]
  · rw [pc_loadRegisters, pc_loadRegisters]
  · rw [flash_loadRegisters, flash_loadRegisters, hflash]
  · rw [executed_loadRegisters, executed_loadRegisters, hexecuted]

theorem loadRegisters_loadRegisters (a : Arch) (f g : RegisterFile) (m : Machine) :
    (m.loadRegisters a f).loadRegisters a g = m.loadRegisters a g :=
  loadRegisters_congr (fun _ h => reg_loadRegisters_of_le h f m) (flash_loadRegisters a f m)
    (executed_loadRegisters a f m) g

/-- Loading what was read changes nothing but a counter that points behind the flash. -/
theorem loadRegisters_readRegisters_iff (a : Arch) (m : Machine) :
    m.loadRegisters a (m.readRegisters a) = m ↔ m.pc.toNat < flashWords := by
  rw [← and_addressMask_eq_self_iff]
  constructor
  · intro h
    have hpc := pc_loadRegisters a (m.readRegisters a) m
    rw [h] at hpc
    exact hpc.symm
  · intro h
    apply ext_entries
    · intro r
      rw [reg_loadRegisters, reg_readRegisters]
      split <;> rfl
    · rfl
    · exact h
    · exact flash_loadRegisters a _ m
    · exact executed_loadRegisters a _ m

theorem transfer_laws (a : Arch) (f : RegisterFile) (m : Machine) :
    let loaded := m.loadRegisters a f
    ((Simulator.machine.loadRegisters a f m).value = loaded ∧
      Simulator.machine.readRegisters a loaded = loaded.readRegisters a) ∧
    loaded.readRegisters a = a.returned f ∧
    (∀ r : Reg, a.registerCount ≤ r.val → loaded.reg r = m.reg r) ∧
    loaded.flash = m.flash ∧
    loaded.executed = m.executed ∧
    (∀ g, loaded.loadRegisters a g = m.loadRegisters a g) ∧
    (m.loadRegisters a (m.readRegisters a) = m ↔ m.pc.toNat < flashWords) := by
  intro loaded
  exact ⟨⟨Simulator.value_machine_loadRegisters a f m, Simulator.machine_readRegisters a loaded⟩,
    readRegisters_loadRegisters a f m, fun _ h => reg_loadRegisters_of_le h f m,
    flash_loadRegisters a f m, executed_loadRegisters a f m,
    fun g => loadRegisters_loadRegisters a f g m, loadRegisters_readRegisters_iff a m⟩

/-- Three registers in the table: the load leaves a register behind it, and cuts a counter of all ones. -/
theorem transfer_laws_threeRegisters :
    let a : Arch := { registerCount := 3 }
    let f : RegisterFile := ⟨Vector.replicate 32 0xee#8, 0x80#8, 0xffff#16⟩
    let m := ((initial.setRegister 2 0x11#8).setRegister 17 0x5a#8).setCounter 0x3fff#16
    a.registerCount ≤ (17 : Reg).val ∧ (m.loadRegisters a f).reg 17 = 0x5a#8 ∧
      (m.loadRegisters a f).readRegisters a = a.returned f ∧
      m.pc.toNat < flashWords ∧ m.loadRegisters a (m.readRegisters a) = m := by
  intro a f m
  have hr : a.registerCount ≤ (17 : Reg).val := by decide
  have hpc : m.pc.toNat < flashWords := by decide
  obtain ⟨-, hread, hkept, -, -, -, hback⟩ := transfer_laws a f m
  exact ⟨hr, (hkept 17 hr).trans (by decide), hread, hpc, hback.mpr hpc⟩

end Machine

end AvrConform
