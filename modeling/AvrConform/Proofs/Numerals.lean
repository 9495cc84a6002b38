import Mathlib.Algebra.Group.Nat.Defs
import AvrConform.Numeral
set_option autoImplicit false

namespace AvrConform

def digits : List Char := "0123456789abcdef".toList

def isDigit (c : Char) : Bool := digits.contains c

def numeralValue (base : Nat) (cs : List Char) : Nat :=
  cs.foldl (fun n c => base * n + digits.idxOf c) 0

theorem idxOf_digitChar {d : Nat} (h : d < 16) : digits.idxOf d.digitChar = d := by
  revert d
  decide

theorem digitChar_mem_digits {d : Nat} (h : d < 16) : d.digitChar ∈ digits := by
  revert d
  decide

theorem numeralValue_concat (base : Nat) (cs : List Char) (c : Char) :
    numeralValue base (cs ++ [c]) = base * numeralValue base cs + digits.idxOf c := by
  simp [numeralValue]

theorem numeralValue_zeros (base k : Nat) (cs : List Char) :
    numeralValue base (List.replicate k '0' ++ cs) = numeralValue base cs := by
  induction k with
  | zero => rfl
  | succ k ih =>
    rw [← ih, List.replicate_succ, List.cons_append, numeralValue, List.foldl_cons]
    rfl

section Base

variable {base : Nat} (hlow : 1 < base) (hhigh : base ≤ 16)
include hlow hhigh

theorem numeralValue_toDigits (n : Nat) : numeralValue base (Nat.toDigits base n) = n := by
  induction n using Nat.strongRecOn with
  | ind n ih =>
    by_cases h : n < base
    · have hdigit := idxOf_digitChar (Nat.lt_of_lt_of_le h hhigh)
      simp [Nat.toDigits_of_lt_base h, numeralValue, hdigit]
    · have hle : base ≤ n := by omega
      have hmod : n % base < 16 := Nat.lt_of_lt_of_le (Nat.mod_lt n (by omega)) hhigh
      rw [Nat.toDigits_of_base_le hlow hle, numeralValue_concat, ih (n / base)
        (Nat.div_lt_self (by omega) hlow), idxOf_digitChar hmod, Nat.div_add_mod]

theorem numeralValue_numeral (width n : Nat) : numeralValue base (numeral base width n) = n := by
  rw [numeral, numeralValue_zeros, numeralValue_toDigits hlow hhigh]

theorem mem_digits_of_mem_toDigits (n : Nat) : ∀ c ∈ Nat.toDigits base n, c ∈ digits := by
  induction n using Nat.strongRecOn with
  | ind n ih =>
    by_cases h : n < base
    · simpa [Nat.toDigits_of_lt_base h] using digitChar_mem_digits (Nat.lt_of_lt_of_le h hhigh)
    · have hle : base ≤ n := by omega
      have hmod : n % base < 16 := Nat.lt_of_lt_of_le (Nat.mod_lt n (by omega)) hhigh
      rw [Nat.toDigits_of_base_le hlow hle]
      intro c hc
      rcases List.mem_append.mp hc with hc | hc
      · exact ih (n / base) (Nat.div_lt_self (by omega) hlow) c hc
      · exact List.mem_singleton.mp hc ▸ digitChar_mem_digits hmod

theorem isDigit_of_mem_numeral {width n : Nat} {c : Char} (h : c ∈ numeral base width n) :
    isDigit c = true := by
  rcases List.mem_append.mp h with h | h
  · rw [List.eq_of_mem_replicate h]
    decide
  · exact List.contains_iff_mem.mpr (mem_digits_of_mem_toDigits hlow hhigh n c h)

end Base

def StartsOutside (p : Char → Bool) : List Char → Prop
  | [] => True
  | c :: _ => p c = false

theorem StartsOutside.ne_cons {p : Char → Bool} {c : Char} {s u : List Char} (hc : p c = true)
    (hs : StartsOutside p s) : s ≠ c :: u := by
  rintro rfl
  have hout : p c = false := hs
  rw [hc] at hout
  cases hout

theorem startsOutside_text {p : Char → Bool} (text : String)
    (h : text.toList.head?.any (fun c => !p c) = true) (u : List Char) :
    StartsOutside p (text.toList ++ u) := by
  cases htext : text.toList with
  | nil =>
    rw [htext] at h
    cases h
  | cons c cs => simpa [htext, StartsOutside] using h

theorem append_inj_of_startsOutside {p : Char → Bool} {xs ys s t : List Char}
    (hxs : ∀ c ∈ xs, p c = true) (hys : ∀ c ∈ ys, p c = true) (hs : StartsOutside p s)
    (ht : StartsOutside p t) (h : xs ++ s = ys ++ t) : xs = ys ∧ s = t := by
  have hcut : ∀ {xs s : List Char}, (∀ c ∈ xs, p c = true) → StartsOutside p s →
      (xs ++ s).takeWhile p = xs := by
    intro xs s hxs hs
    rw [List.takeWhile_append_of_pos hxs]
    cases s with
    | nil => simp
    | cons c s =>
      have hc : p c = false := hs
      simp [hc]
  have hsame : xs = ys := by rw [← hcut hxs hs, ← hcut hys ht, h]
  exact ⟨hsame, List.append_cancel_left (hsame ▸ h)⟩

theorem append_inj_of_notMem {c : Char} {xs ys s t : List Char} (hxs : c ∉ xs) (hys : c ∉ ys)
    (hs : StartsOutside (fun d => d != c) s) (ht : StartsOutside (fun d => d != c) t)
    (h : xs ++ s = ys ++ t) : xs = ys ∧ s = t := by
  have hin : ∀ xs : List Char, c ∉ xs → ∀ d ∈ xs, (d != c) = true := by
    intro xs hxs d hd
    simpa using fun e : d = c => hxs (e ▸ hd)
  exact append_inj_of_startsOutside (hin xs hxs) (hin ys hys) hs ht h

theorem numeral_append_inj {base : Nat} (hlow : 1 < base) (hhigh : base ≤ 16) {width n k : Nat}
    {s t : List Char} (hs : StartsOutside isDigit s) (ht : StartsOutside isDigit t)
    (h : numeral base width n ++ s = numeral base width k ++ t) : n = k ∧ s = t := by
  obtain ⟨hsame, hrest⟩ := append_inj_of_startsOutside
    (fun _ => isDigit_of_mem_numeral hlow hhigh) (fun _ => isDigit_of_mem_numeral hlow hhigh) hs ht h
  refine ⟨?_, hrest⟩
  rw [← numeralValue_numeral hlow hhigh width n, hsame, numeralValue_numeral hlow hhigh]

theorem length_numeral {base width n : Nat} (hlow : 1 < base) (hwidth : 0 < width)
    (hn : n < base ^ width) : (numeral base width n).length = width := by
  have hdigits := (Nat.length_toDigits_le_iff hlow hwidth).mpr hn
  simp only [numeral, List.length_append, List.length_replicate]
  omega

theorem fixed_numeral_append_inj {base width n k : Nat} {s t : List Char} (hlow : 1 < base)
    (hhigh : base ≤ 16) (hwidth : 0 < width) (hn : n < base ^ width) (hk : k < base ^ width)
    (h : numeral base width n ++ s = numeral base width k ++ t) : n = k ∧ s = t := by
  have hlength : (numeral base width n).length = (numeral base width k).length := by
    rw [length_numeral hlow hwidth hn, length_numeral hlow hwidth hk]
  obtain ⟨hsame, hrest⟩ := List.append_inj h hlength
  refine ⟨?_, hrest⟩
  rw [← numeralValue_numeral hlow hhigh width n, hsame, numeralValue_numeral hlow hhigh]

theorem decimal_append_inj {n k : Nat} {s t : List Char} (hs : StartsOutside isDigit s)
    (ht : StartsOutside isDigit t) (h : decimal n ++ s = decimal k ++ t) : n = k ∧ s = t :=
  numeral_append_inj (by decide) (by decide) hs ht h

theorem hex_append_inj {width n k : Nat} {s t : List Char} (hs : StartsOutside isDigit s)
    (ht : StartsOutside isDigit t) (h : hex width n ++ s = hex width k ++ t) : n = k ∧ s = t := by
  rw [hex, hex, List.append_assoc, List.append_assoc] at h
  exact numeral_append_inj (by decide) (by decide) hs ht (List.append_cancel_left h)

theorem isDigit_of_mem_decimal {c : Char} {n : Nat} (h : c ∈ decimal n) : isDigit c = true :=
  isDigit_of_mem_numeral (by decide) (by decide) h

theorem notMem_hex {c : Char} (h : isDigit c = false) (hx : c ≠ 'x') (width n : Nat) :
    c ∉ hex width n := by
  intro hc
  rcases List.mem_append.mp hc with hc | hc
  · have hmem : c = '0' ∨ c = 'x' := by simpa using hc
    rcases hmem with rfl | rfl
    · cases h
    · exact hx rfl
  · rw [isDigit_of_mem_numeral (by decide) (by decide) hc] at h
    cases h

end AvrConform
