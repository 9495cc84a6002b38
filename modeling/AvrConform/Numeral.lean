set_option autoImplicit false

/-! Bytes and words, and the numerals that reports and journals print. Every written form of the
project is a list of characters, so that laws about it are laws about lists. -/

namespace AvrConform

abbrev Byte := BitVec 8

abbrev Word := BitVec 16

/-- The digits of `n` in `base`, in lower case, with zeros in front up to `width` digits. A number
that needs more digits than that is not cut. -/
def numeral (base width n : Nat) : List Char :=
  List.replicate (width - (Nat.toDigits base n).length) '0' ++ Nat.toDigits base n

def decimal (n : Nat) : List Char := numeral 10 1 n

/-- A marked hexadecimal numeral: `hex 4 0x1f` is `0x001f`. -/
def hex (width n : Nat) : List Char := ['0', 'x'] ++ numeral 16 width n

def Byte.wire (b : Byte) : List Char := hex 2 b.toNat

def Word.wire (w : Word) : List Char := hex 4 w.toNat

theorem numeral_ne_nil (base width n : Nat) : numeral base width n ≠ [] := by
  simp [numeral]

theorem le_numeral_length (base width n : Nat) : width ≤ (numeral base width n).length := by
  simp only [numeral, List.length_append, List.length_replicate]
  omega

/-- Padding changes nothing once the digits fill the width. -/
theorem numeral_eq_toDigits {base width n : Nat} (h : width ≤ (Nat.toDigits base n).length) :
    numeral base width n = Nat.toDigits base n := by
  simp [numeral, Nat.sub_eq_zero_of_le h]

theorem decimal_eq_toDigits (n : Nat) : decimal n = Nat.toDigits 10 n :=
  numeral_eq_toDigits (List.length_pos_iff.mpr Nat.toDigits_ne_nil)

end AvrConform
