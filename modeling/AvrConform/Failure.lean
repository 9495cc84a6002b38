import AvrConform.Case
set_option autoImplicit false

namespace AvrConform

inductive Divergence where
  /-- The instruction may write the entry, and it holds the wrong value: expected, then actual. -/
  | mismatch : RegId → Word → Word → Divergence
  /-- The instruction must not write the entry, and it changed: before, then after. -/
  | mutation : RegId → Word → Word → Divergence
  deriving DecidableEq

namespace Divergence

def entry : Divergence → RegId
  | .mismatch i _ _ => i
  | .mutation i _ _ => i

def valueWire (i : RegId) (w : Word) : List Char :=
  match i with
  | .gpr _ => hex 2 w.toNat
  | .sreg => hex 2 w.toNat ++ " (".toList ++ Sreg.wire (w.setWidth 8) ++ [')']
  | .pc => w.wire

/-- The flags in which two status registers differ, for a mismatch of that entry only. -/
def flagsWire (i : RegId) (a b : Word) : List Char :=
  match i with
  | .sreg =>
    ", differs in ".toList ++
      ((Sreg.diff (a.setWidth 8) (b.setWidth 8)).map Flag.letter).intersperse ' '
  | _ => []

def wire : Divergence → List Char
  | .mismatch i e a =>
    i.wire ++ " expected ".toList ++ valueWire i e ++ ", got ".toList ++ valueWire i a ++
      flagsWire i e a
  | .mutation i b a =>
    i.wire ++ " changed unexpectedly from ".toList ++ valueWire i b ++ " to ".toList ++ valueWire i a

end Divergence

inductive Cause where
  | assertion : List Divergence → Cause
  | decode : String → Cause
  deriving DecidableEq

namespace Cause

def isDecode : Cause → Bool
  | .assertion _ => false
  | .decode _ => true

def divergences : Cause → List Divergence
  | .assertion ds => ds
  | .decode _ => []

def wire : Cause → List Char
  | .assertion ds => "; ".toList.intercalate (ds.map Divergence.wire)
  | .decode message => "decode failure: ".toList ++ message.toList

end Cause

structure Failure where
  case : Case
  word : Word
  cause : Cause
  deriving DecidableEq

def Failure.wire (f : Failure) : List Char :=
  f.case.name ++ " [".toList ++ f.word.wire ++ "]: ".toList ++ f.cause.wire

namespace Case

def divergence? (a : Arch) (c : Case) (snapshot : RegisterFile) (i : RegId) : Option Divergence :=
  let before := c.preset a
  let after := c.expected a before
  if after.get i = snapshot.get i then none
  else if c.touches i then some (.mismatch i (after.get i) (snapshot.get i))
  else some (.mutation i (before.get i) (snapshot.get i))

/-- Compares a snapshot with the expected state on every entry that the architecture knows. All
divergences are collected, in the order of the entries. -/
def judge (a : Arch) (c : Case) (snapshot : RegisterFile) : Except Failure Unit :=
  match a.ids.filterMap (c.divergence? a snapshot) with
  | [] => .ok ()
  | d :: ds => .error ⟨c, c.word, .assertion (d :: ds)⟩

theorem divergence?_eq_none_iff (a : Arch) (c : Case) (snapshot : RegisterFile) (i : RegId) :
    c.divergence? a snapshot i = none ↔ (c.expected a (c.preset a)).get i = snapshot.get i := by
  by_cases h : (c.expected a (c.preset a)).get i = snapshot.get i
  · simp [divergence?, h]
  · cases ht : c.touches i <;> simp [divergence?, h, ht]

end Case

end AvrConform
