import AvrConform.Architecture
set_option autoImplicit false

namespace AvrConform

structure RegisterFile where
  gprs : Vector Byte 32
  sreg : Sreg
  pc : Word
  deriving DecidableEq

namespace RegisterFile

def zero : RegisterFile := ⟨Vector.replicate 32 0#8, 0#8, 0#16⟩

def reg (f : RegisterFile) (r : Reg) : Byte := f.gprs[r.val]

def setReg (f : RegisterFile) (r : Reg) (v : Byte) : RegisterFile :=
  { f with gprs := f.gprs.set r.val v }

def get (f : RegisterFile) : RegId → Word
  | .gpr r => (f.reg r).setWidth 16
  | .sreg => f.sreg.setWidth 16
  | .pc => f.pc

def set (f : RegisterFile) (i : RegId) (w : Word) : RegisterFile :=
  match i with
  | .gpr r => f.setReg r (w.setWidth 8)
  | .sreg => { f with sreg := w.setWidth 8 }
  | .pc => { f with pc := w }

@[simp] theorem reg_setReg (f : RegisterFile) (r q : Reg) (v : Byte) :
    (f.setReg r v).reg q = if q = r then v else f.reg q := by
  simp only [reg, setReg, Vector.getElem_set, Fin.ext_iff, eq_comm]

@[simp] theorem sreg_setReg (f : RegisterFile) (r : Reg) (v : Byte) :
    (f.setReg r v).sreg = f.sreg := rfl

@[simp] theorem pc_setReg (f : RegisterFile) (r : Reg) (v : Byte) :
    (f.setReg r v).pc = f.pc := rfl

@[simp] theorem reg_zero (r : Reg) : zero.reg r = 0#8 := by simp [zero, reg]

theorem ext_get {f g : RegisterFile} (h : ∀ i : RegId, f.get i = g.get i) : f = g := by
  have widen : ∀ {a b : Byte}, a.setWidth 16 = b.setWidth 16 → a = b := by
    intro a b hab
    have hc := congrArg (BitVec.setWidth 8) hab
    simpa using hc
  obtain ⟨fr, fs, fp⟩ := f
  obtain ⟨gr, gs, gp⟩ := g
  have hp : fp = gp := h .pc
  have hs : fs = gs := widen (h .sreg)
  have hr : fr = gr := by
    apply Vector.ext
    intro i hi
    exact widen (h (.gpr ⟨i, hi⟩))
  rw [hp, hs, hr]

end RegisterFile

end AvrConform
