import AvrConform.Register
import AvrConform.Sreg
set_option autoImplicit false

namespace AvrConform

structure Arch where
  /-- Counts above 32 stand for 32. -/
  registerCount : Nat := 32
  instructionWidth : Word := 1#16
  pcMask : Word := 0x3fff#16
  controlFlags : Flag × Flag := (.bitCopy, .interrupt)

namespace Arch

def avr : Arch := {}

def regs (a : Arch) : List Reg := Reg.all.take a.registerCount

def ids (a : Arch) : List RegId := a.regs.map .gpr ++ [.sreg, .pc]

def controlMask (a : Arch) : Byte := Sreg.ofFlags [a.controlFlags.1, a.controlFlags.2]

def nextPc (a : Arch) (pc : Word) : Word := (pc + a.instructionWidth) &&& a.pcMask

theorem mem_regs_iff (a : Arch) (r : Reg) : r ∈ a.regs ↔ r.val < a.registerCount := by
  rw [regs, Reg.all, List.mem_iff_getElem]
  constructor
  · rintro ⟨i, hi, h⟩
    simp only [List.length_take, List.length_finRange] at hi
    simp only [List.getElem_take, List.getElem_finRange] at h
    subst h
    simp only [Fin.val_cast]
    omega
  · intro h
    have hr := r.isLt
    exact ⟨r.val, by simp only [List.length_take, List.length_finRange]; omega, by simp⟩

theorem mem_ids_iff (a : Arch) (i : RegId) :
    i ∈ a.ids ↔ (∀ r, i = .gpr r → r.val < a.registerCount) := by
  cases i with
  | gpr r => simp [ids, mem_regs_iff]
  | sreg => simp [ids]
  | pc => simp [ids]

theorem length_regs (a : Arch) : a.regs.length = min a.registerCount 32 := by
  simp [regs, Reg.all]

end Arch

end AvrConform
