import AvrConform.Instruction
import AvrConform.RegisterFile
set_option autoImplicit false

namespace AvrConform

def flashWords : Nat := 0x4000

def addressMask : Word := 0x3fff#16

theorem and_addressMask_lt (a : Word) : (a &&& addressMask).toNat < flashWords := by
  have h : (a &&& addressMask).toNat ≤ addressMask.toNat := by
    rw [BitVec.toNat_and]
    exact Nat.and_le_right
  exact Nat.lt_of_le_of_lt h (by decide)

def cell (a : Word) : Fin flashWords := ⟨(a &&& addressMask).toNat, and_addressMask_lt a⟩

structure Machine extends RegisterFile where
  flash : Vector Word flashWords
  executed : Nat

structure InvalidInstruction where
  word : Word
  pc : Word
  deriving DecidableEq

def InvalidInstruction.wire (e : InvalidInstruction) : List Char :=
  "invalid instruction ".toList ++ e.word.wire ++ " at pc ".toList ++ e.pc.wire

namespace Machine

def initial : Machine :=
  { RegisterFile.zero with flash := Vector.replicate flashWords 0#16, executed := 0 }

def fetch (m : Machine) (a : Word) : Word :=
  m.flash[(cell a).val]

def store (m : Machine) (a w : Word) : Machine :=
  { m with flash := m.flash.set (cell a).val w }

def setRegister (m : Machine) (r : Reg) (v : Byte) : Machine :=
  { m with toRegisterFile := m.toRegisterFile.setReg r v }

def setStatus (m : Machine) (s : Sreg) : Machine := { m with sreg := s }

def setCounter (m : Machine) (pc : Word) : Machine := { m with pc := pc &&& addressMask }

def countInstruction (m : Machine) : Machine := { m with executed := m.executed + 1 }

def stage (m : Machine) (w : Word) : Machine := m.store m.pc w

def loadImage (m : Machine) (ws : List Word) (start : Word) : Machine :=
  match ws with
  | [] => m
  | w :: rest => (m.store start w).loadImage rest (start + 1#16)

def loadRegisters (a : Arch) (f : RegisterFile) (m : Machine) : Machine :=
  ((a.regs.foldl (fun m r => m.setRegister r (f.reg r)) m).setStatus f.sreg).setCounter f.pc

/-- The registers that the architecture knows, the status register and the counter; every other
register reads as zero. -/
def readRegisters (a : Arch) (m : Machine) : RegisterFile :=
  { a.regs.foldl (fun f r => f.setReg r (m.reg r)) RegisterFile.zero with
    sreg := m.sreg, pc := m.pc }

@[simp] theorem fetch_store (m : Machine) (a b w : Word) :
    (m.store a w).fetch b = if cell b = cell a then w else m.fetch b := by
  simp only [fetch, store, Vector.getElem_set, Fin.ext_iff, eq_comm]

@[simp] theorem reg_setRegister (m : Machine) (r q : Reg) (v : Byte) :
    (m.setRegister r v).reg q = if q = r then v else m.reg q :=
  RegisterFile.reg_setReg m.toRegisterFile r q v

theorem setCounter_pc_lt (m : Machine) (pc : Word) : (m.setCounter pc).pc.toNat < flashWords :=
  and_addressMask_lt pc

end Machine

end AvrConform
