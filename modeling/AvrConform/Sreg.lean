import AvrConform.Numeral
set_option autoImplicit false

namespace AvrConform

inductive Flag where
  | carry | zero | negative | overflow
  /-- Negative exclusive-or overflow: the sign of the exact result. -/
  | sign
  | halfCarry | bitCopy | interrupt
  deriving DecidableEq

namespace Flag

def all : List Flag :=
  [.carry, .zero, .negative, .overflow, .sign, .halfCarry, .bitCopy, .interrupt]

def bit : Flag → Nat
  | .carry => 0
  | .zero => 1
  | .negative => 2
  | .overflow => 3
  | .sign => 4
  | .halfCarry => 5
  | .bitCopy => 6
  | .interrupt => 7

def letter : Flag → Char
  | .carry => 'C'
  | .zero => 'Z'
  | .negative => 'N'
  | .overflow => 'V'
  | .sign => 'S'
  | .halfCarry => 'H'
  | .bitCopy => 'T'
  | .interrupt => 'I'

def mask (f : Flag) : Byte := 1#8 <<< f.bit

def ofInt? (n : Int) : Option Flag := all.find? (fun f => (f.bit : Int) = n)

def ofLetter? (c : Char) : Option Flag := all.find? (fun f => f.letter = c)

theorem mem_all (f : Flag) : f ∈ all := by cases f <;> decide

theorem bit_lt (f : Flag) : f.bit < 8 := by cases f <;> decide

theorem bit_injective {f g : Flag} (h : f.bit = g.bit) : f = g := by
  cases f <;> cases g <;> simp_all [bit]

theorem exists_bit {i : Nat} (h : i < 8) : ∃ f : Flag, f.bit = i := by
  match i, h with
  | 0, _ => exact ⟨.carry, rfl⟩
  | 1, _ => exact ⟨.zero, rfl⟩
  | 2, _ => exact ⟨.negative, rfl⟩
  | 3, _ => exact ⟨.overflow, rfl⟩
  | 4, _ => exact ⟨.sign, rfl⟩
  | 5, _ => exact ⟨.halfCarry, rfl⟩
  | 6, _ => exact ⟨.bitCopy, rfl⟩
  | 7, _ => exact ⟨.interrupt, rfl⟩

@[simp] theorem ofLetter?_letter (f : Flag) : ofLetter? f.letter = some f := by
  cases f <;> rfl

end Flag

abbrev Sreg := Byte

namespace Sreg

def get (s : Sreg) (f : Flag) : Bool := s.getLsbD f.bit

def set (s : Sreg) (f : Flag) (v : Bool) : Sreg :=
  (s &&& ~~~f.mask) ||| (if v then f.mask else 0#8)

/-- Zero and negative from the result, overflow as given, sign from the last two. -/
def setResult (s : Sreg) (res : Byte) (overflow : Bool) : Sreg :=
  let negative := res.getLsbD 7
  (((s.set .zero (res == 0#8)).set .negative negative).set .overflow overflow).set .sign
    (negative != overflow)

def ofFlags (fs : List Flag) : Sreg := fs.foldl (fun s f => s ||| f.mask) 0#8

def diff (a b : Sreg) : List Flag := Flag.all.filter (fun f => get (a ^^^ b) f)

/-- Highest bit first, the letter of a flag that is set and a dash for one that is clear. -/
def wire (s : Sreg) : List Char :=
  Flag.all.reverse.map (fun f => if s.get f then f.letter else '-')

theorem ext_get {s t : Sreg} (h : ∀ f : Flag, s.get f = t.get f) : s = t := by
  apply BitVec.eq_of_getLsbD_eq
  intro i hi
  obtain ⟨f, rfl⟩ := Flag.exists_bit hi
  exact h f

theorem getLsbD_mask (f : Flag) (i : Nat) : f.mask.getLsbD i = decide (i = f.bit) := by
  have hf := f.bit_lt
  by_cases hi : i = f.bit
  · subst hi
    simp [Flag.mask, hf]
  · by_cases hlt : i < f.bit
    · simp [Flag.mask, hlt, hi]
    · have hne : i - f.bit ≠ 0 := by omega
      simp [Flag.mask, hi, hne]

theorem get_or (s t : Sreg) (f : Flag) : get (s ||| t) f = (s.get f || t.get f) := by
  simp only [get, BitVec.getLsbD_or]

theorem get_and (s t : Sreg) (f : Flag) : get (s &&& t) f = (s.get f && t.get f) := by
  simp only [get, BitVec.getLsbD_and]

theorem get_not (s : Sreg) (f : Flag) : get (~~~s) f = !s.get f := by
  simp only [get, BitVec.getLsbD_not, f.bit_lt, decide_true, Bool.true_and]

theorem get_zero (f : Flag) : get 0#8 f = false := by
  simp only [get, BitVec.getLsbD_zero]

theorem get_mask (f g : Flag) : get f.mask g = decide (g = f) := by
  rw [get, getLsbD_mask]
  exact decide_eq_decide.mpr ⟨Flag.bit_injective, congrArg Flag.bit⟩

theorem get_ofFlags (fs : List Flag) (f : Flag) : get (ofFlags fs) f = decide (f ∈ fs) := by
  have h : ∀ s : Sreg,
      get (fs.foldl (fun s f => s ||| f.mask) s) f = (s.get f || decide (f ∈ fs)) := by
    induction fs with
    | nil => simp
    | cons g fs ih =>
      intro s
      rw [List.foldl_cons, ih, get_or, get_mask]
      by_cases h : f = g <;> simp [h]
  rw [ofFlags, h, get_zero, Bool.false_or]

theorem getLsbD_set (s : Sreg) (f : Flag) (v : Bool) (i : Nat) (hi : i < 8) :
    (s.set f v).getLsbD i = if i = f.bit then v else s.getLsbD i := by
  cases v <;> by_cases h : i = f.bit <;>
    simp only [set, BitVec.getLsbD_or, BitVec.getLsbD_and, BitVec.getLsbD_not, getLsbD_mask,
      BitVec.getLsbD_zero, ↓reduceIte, Bool.false_eq_true, h, hi] <;> simp

@[simp] theorem get_set (s : Sreg) (f g : Flag) (v : Bool) :
    (s.set f v).get g = if g = f then v else s.get g := by
  simp only [get, getLsbD_set s f v g.bit g.bit_lt]
  by_cases h : g = f
  · simp [h]
  · have hb : g.bit ≠ f.bit := fun e => h (Flag.bit_injective e)
    simp [h, hb]

theorem set_get (s : Sreg) (f : Flag) : s.set f (s.get f) = s := by
  apply ext_get
  intro g
  by_cases h : g = f <;> simp [h]

end Sreg

inductive FlagWrite where
  | flag : Flag → Bool → FlagWrite
  | carry : Bool → FlagWrite
  | halfCarry : Bool → FlagWrite
  | result : Byte → Bool → FlagWrite

def FlagWrite.apply : FlagWrite → Sreg → Sreg
  | .flag f v, s => s.set f v
  | .carry v, s => s.set .carry v
  | .halfCarry v, s => s.set .halfCarry v
  | .result res overflow, s => s.setResult res overflow

def FlagWrite.value? : FlagWrite → Flag → Option Bool
  | .flag f v, g => if g = f then some v else none
  | .carry v, g => if g = .carry then some v else none
  | .halfCarry v, g => if g = .halfCarry then some v else none
  | .result res _, .zero => some (res == 0#8)
  | .result res _, .negative => some (res.getLsbD 7)
  | .result _ overflow, .overflow => some overflow
  | .result res overflow, .sign => some (res.getLsbD 7 != overflow)
  | .result _ _, _ => none

theorem FlagWrite.get_apply (w : FlagWrite) (s : Sreg) (f : Flag) :
    (w.apply s).get f = (w.value? f).getD (s.get f) := by
  cases w with
  | flag g v => by_cases h : f = g <;> simp [apply, value?, h]
  | carry v => by_cases h : f = .carry <;> simp [apply, value?, h]
  | halfCarry v => by_cases h : f = .halfCarry <;> simp [apply, value?, h]
  | result res overflow => cases f <;> simp [apply, value?, Sreg.setResult]

end AvrConform
