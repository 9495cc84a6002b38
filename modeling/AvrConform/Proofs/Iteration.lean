import Mathlib.Algebra.Group.Int.Defs
import Mathlib.Algebra.Group.Nat.Defs
import AvrConform.Proofs.Program
set_option autoImplicit false

namespace AvrConform

/-- The bits of a rotated word are those `n` places above, counted around the word. -/
theorem getLsbD_rotateRight_mod {w : Nat} (x : BitVec w) (n : Nat) {i : Nat} (hi : i < w) :
    (x.rotateRight n).getLsbD i = x.getLsbD ((i + n) % w) := by
  have hn : n % w < w := Nat.mod_lt n (by omega)
  have hsum : (i + n) % w = (i + n % w) % w := (Nat.add_mod_mod i n w).symm
  rw [BitVec.getLsbD_rotateRight, hsum]
  generalize n % w = k at hn
  by_cases h : i < w - k
  · rw [Nat.mod_eq_of_lt (by omega), Nat.add_comm i]
    simp [h]
  · have hplace : i + k - w = i - (w - k) := by omega
    rw [Nat.mod_eq_sub_mod (by omega), Nat.mod_eq_of_lt (by omega), hplace]
    simp [h, hi]

theorem rotateRight_succ {w : Nat} (x : BitVec w) (n : Nat) :
    x.rotateRight (n + 1) = (x.rotateRight n).rotateRight 1 := by
  apply BitVec.eq_of_getLsbD_eq
  intro i hi
  have hnext : (i + 1) % w < w := Nat.mod_lt _ (by omega)
  rw [getLsbD_rotateRight_mod x _ hi, getLsbD_rotateRight_mod _ 1 hi, getLsbD_rotateRight_mod x n hnext,
    Nat.mod_add_mod, Nat.add_assoc, Nat.add_comm 1]

theorem rotateRight_of_mod_eq_zero {w : Nat} (x : BitVec w) {n : Nat} (h : n % w = 0) :
    x.rotateRight n = x := by
  apply BitVec.eq_of_getLsbD_eq
  intro i hi
  rw [getLsbD_rotateRight_mod x n hi, Nat.add_mod, h, Nat.add_zero, Nat.mod_mod, Nat.mod_eq_of_lt hi]

/-- The carry on top of a register, as one number of nine bits. -/
def withCarry (carry : Bool) (v : Byte) : BitVec 9 := BitVec.ofNat 9 (256 * carry.toNat + v.toNat)

theorem toNat_withCarry (carry : Bool) (v : Byte) :
    (withCarry carry v).toNat = 256 * carry.toNat + v.toNat := by
  have hv := v.isLt
  rw [withCarry, BitVec.toNat_ofNat]
  cases carry <;> simp only [Bool.toNat_true, Bool.toNat_false] <;> omega

theorem withCarry_inj {carry carry' : Bool} {v v' : Byte} (h : withCarry carry v = withCarry carry' v') :
    v = v' ∧ carry = carry' := by
  have hnumber := congrArg BitVec.toNat h
  have hv := v.isLt
  have hv' := v'.isLt
  rw [toNat_withCarry, toNat_withCarry] at hnumber
  have hcarry : carry.toNat = carry'.toNat := by omega
  refine ⟨BitVec.eq_of_toNat_eq (by omega), ?_⟩
  revert hcarry
  cases carry <;> cases carry' <;> decide

/-- What `n` steps of an opcode do to a register that holds `v` under the status `s`: it ends as `w` under the
status `t`, and `u` is what it held before the last step. A quotient of integers is rounded down. -/
def Opcode.Iterates (op : Opcode) (n : Nat) (v : Byte) (s : Sreg) (u w : Byte) (t : Sreg) : Prop :=
  match op with
  | .inc =>
    w.toNat = (v.toNat + n) % 256 ∧ t.get .carry = s.get .carry ∧ t.get .halfCarry = s.get .halfCarry ∧
      (1 ≤ n → (t.get .overflow = true ↔ w = 0x80#8))
  | .dec =>
    (w.toNat : Int) = (v.toNat - n) % 256 ∧ t.get .carry = s.get .carry ∧
      t.get .halfCarry = s.get .halfCarry ∧ (1 ≤ n → (t.get .overflow = true ↔ w = 0x7f#8))
  | .lsr => w.toNat = v.toNat / 2 ^ n ∧ (1 ≤ n → t.get .carry = v.getLsbD (n - 1))
  | .asr =>
    (w.toNat : Int) = v.toInt / 2 ^ n % 256 ∧ (1 ≤ n → t.get .carry = v.getLsbD (min (n - 1) 7))
  | .ror =>
    256 * (t.get .carry).toNat + w.toNat =
        ((BitVec.ofNat 9 (256 * (s.get .carry).toNat + v.toNat)).rotateRight n).toNat ∧
      (n % 9 = 0 → w = v ∧ t.get .carry = s.get .carry)
  | .com => w.toNat = (if n % 2 = 0 then v.toNat else 255 - v.toNat) ∧ (1 ≤ n → t.get .carry = true)
  | .neg =>
    (w.toNat : Int) = (if n % 2 = 0 then (v.toNat : Int) else -v.toNat % 256) ∧
      (1 ≤ n → (t.get .carry = true ↔ w ≠ 0#8) ∧ (t.get .halfCarry = true ↔ u.toNat % 16 ≠ 0))
  | .swap =>
    w.toNat = (if n % 2 = 0 then v.toNat else v.toNat % 16 * 16 + v.toNat / 16) ∧
      t.get .carry = s.get .carry ∧ t.get .halfCarry = s.get .halfCarry

namespace Oracle

def repeated (op : Opcode) (n : Nat) (v : Byte) (s : Sreg) : Byte × Sreg :=
  match n with
  | 0 => (v, s)
  | n + 1 => expected op (repeated op n v s).1 (repeated op n v s).2

theorem get_repeated_of_notMem {op : Opcode} {f : Flag} (h : f ∉ writes op) (n : Nat) (v : Byte)
    (s : Sreg) : Sreg.get (repeated op n v s).2 f = s.get f := by
  induction n with
  | zero => rfl
  | succ n ih => rw [repeated, get_expected, if_neg h, ih]

theorem repeated_of_pos (op : Opcode) {n : Nat} (h : 1 ≤ n) (v : Byte) (s : Sreg) :
    repeated op n v s = expected op (repeated op (n - 1) v s).1 (repeated op (n - 1) v s).2 := by
  obtain ⟨k, rfl⟩ := Nat.exists_eq_add_of_le' h
  rfl

theorem carry_expected_shift {op : Opcode} (h : op ∈ [.asr, .lsr, .ror]) (v : Byte) (s : Sreg) :
    Sreg.get (expected op v s).2 .carry = v.getLsbD 0 := by
  have hshift : op = .asr ∨ op = .lsr ∨ op = .ror := by simpa using h
  rcases hshift with rfl | rfl | rfl <;>
    simp [get_expected, writes, compute, get_pack, shiftFlags, resultFlags]

theorem overflow_expected_inc (v : Byte) (s : Sreg) :
    Sreg.get (expected .inc v s).2 .overflow = ((expected .inc v s).1 == 0x80#8) := by
  rw [get_expected, if_pos (by decide)]
  simp [expected, compute, get_pack, resultFlags]

theorem overflow_expected_dec (v : Byte) (s : Sreg) :
    Sreg.get (expected .dec v s).2 .overflow = ((expected .dec v s).1 == 0x7f#8) := by
  rw [get_expected, if_pos (by decide)]
  simp [expected, compute, get_pack, resultFlags]

theorem carry_expected_neg (v : Byte) (s : Sreg) :
    Sreg.get (expected .neg v s).2 .carry = ((expected .neg v s).1 != 0#8) := by
  rw [get_expected, if_pos (by decide)]
  simp [expected, compute, get_pack, resultFlags]

/-- A borrow out of the low nibble, which is there unless the nibble is zero. -/
theorem halfCarry_expected_neg (v : Byte) (s : Sreg) :
    Sreg.get (expected .neg v s).2 .halfCarry = true ↔ v.toNat % 16 ≠ 0 := by
  have hnibble : ∀ v : Byte, (-v ||| v).getLsbD 3 = true ↔ v.toNat % 16 ≠ 0 := by decide
  rw [← hnibble, get_expected, if_pos (by decide)]
  simp [compute, get_pack, resultFlags]

section Steps

variable (n : Nat) (v : Byte) (s : Sreg)

theorem toNat_repeated_inc : (repeated .inc n v s).1.toNat = (v.toNat + n) % 256 := by
  induction n with
  | zero => exact (Nat.mod_eq_of_lt v.isLt).symm
  | succ n ih =>
    have hstep : (repeated .inc (n + 1) v s).1 = (repeated .inc n v s).1 + 1#8 := rfl
    rw [hstep, BitVec.toNat_add, ih, BitVec.toNat_ofNat]
    omega

theorem toNat_repeated_dec : ((repeated .dec n v s).1.toNat : Int) = (v.toNat - n) % 256 := by
  induction n with
  | zero =>
    have hv := v.isLt
    simp only [repeated]
    omega
  | succ n ih =>
    have hstep : (repeated .dec (n + 1) v s).1 = (repeated .dec n v s).1 - 1#8 := rfl
    rw [hstep, BitVec.toNat_sub, BitVec.toNat_ofNat]
    omega

theorem repeated_lsr : (repeated .lsr n v s).1 = v >>> n := by
  induction n with
  | zero => rw [repeated, BitVec.ushiftRight_zero]
  | succ n ih =>
    have hstep : (repeated .lsr (n + 1) v s).1 = (repeated .lsr n v s).1 >>> 1 := rfl
    rw [hstep, ih, BitVec.shiftRight_add]

theorem repeated_asr : (repeated .asr n v s).1 = v.sshiftRight n := by
  induction n with
  | zero => rw [repeated, BitVec.sshiftRight_zero]
  | succ n ih =>
    have hstep : (repeated .asr (n + 1) v s).1 = (repeated .asr n v s).1.sshiftRight 1 := by
      rw [repeated, ← Opcode.execute_eq_expected]
      rfl
    rw [hstep, ih, BitVec.sshiftRight_add]

theorem withCarry_expected_ror :
    withCarry (Sreg.get (expected .ror v s).2 .carry) (expected .ror v s).1 =
      (withCarry (s.get .carry) v).rotateRight 1 := by
  have hbits : ∀ (carry : Bool) (v : Byte),
      withCarry (v.getLsbD 0) (v >>> 1 ||| (if carry then 0x80#8 else 0#8)) =
        (withCarry carry v).rotateRight 1 := by
    decide
  rw [carry_expected_shift (by decide), ← Opcode.execute_eq_expected]
  exact hbits (s.get .carry) v

theorem withCarry_repeated_ror :
    withCarry (Sreg.get (repeated .ror n v s).2 .carry) (repeated .ror n v s).1 =
      (withCarry (s.get .carry) v).rotateRight n := by
  induction n with
  | zero => rw [repeated, rotateRight_of_mod_eq_zero _ (Nat.zero_mod 9)]
  | succ n ih => rw [repeated, withCarry_expected_ror, ih, ← rotateRight_succ]

theorem repeated_of_involutive {op : Opcode} {g : Byte → Byte} (hop : ∀ v s, (expected op v s).1 = g v)
    (hg : ∀ v, g (g v) = v) : (repeated op n v s).1 = if n % 2 = 0 then v else g v := by
  induction n with
  | zero => rfl
  | succ n ih =>
    rw [repeated, hop, ih]
    rcases Nat.mod_two_eq_zero_or_one n with h | h
    · have hsucc : (n + 1) % 2 = 1 := by omega
      simp [h, hsucc]
    · have hsucc : (n + 1) % 2 = 0 := by omega
      simp [h, hsucc, hg]

/-- What counting up and counting down have in common: two flags that stay, and one value at which the range of
signed bytes is left. -/
theorem flags_repeated_counting {op : Opcode} {limit : Byte} (hcarry : .carry ∉ writes op)
    (hhalf : .halfCarry ∉ writes op)
    (hoverflow : ∀ v s, Sreg.get (expected op v s).2 .overflow = ((expected op v s).1 == limit)) :
    Sreg.get (repeated op n v s).2 .carry = s.get .carry ∧
      Sreg.get (repeated op n v s).2 .halfCarry = s.get .halfCarry ∧
      (1 ≤ n → (Sreg.get (repeated op n v s).2 .overflow = true ↔ (repeated op n v s).1 = limit)) := by
  refine ⟨get_repeated_of_notMem hcarry n v s, get_repeated_of_notMem hhalf n v s, fun hn => ?_⟩
  rw [repeated_of_pos op hn, hoverflow, beq_iff_eq]

theorem iterates_inc :
    Opcode.inc.Iterates n v s (repeated .inc (n - 1) v s).1 (repeated .inc n v s).1
      (repeated .inc n v s).2 :=
  ⟨toNat_repeated_inc n v s, flags_repeated_counting n v s (by decide) (by decide) overflow_expected_inc⟩

theorem iterates_dec :
    Opcode.dec.Iterates n v s (repeated .dec (n - 1) v s).1 (repeated .dec n v s).1
      (repeated .dec n v s).2 :=
  ⟨toNat_repeated_dec n v s, flags_repeated_counting n v s (by decide) (by decide) overflow_expected_dec⟩

theorem iterates_lsr :
    Opcode.lsr.Iterates n v s (repeated .lsr (n - 1) v s).1 (repeated .lsr n v s).1
      (repeated .lsr n v s).2 := by
  refine ⟨?_, fun hn => ?_⟩
  · rw [repeated_lsr, BitVec.toNat_ushiftRight, Nat.shiftRight_eq_div_pow]
  · rw [repeated_of_pos .lsr hn, carry_expected_shift (by decide), repeated_lsr,
      BitVec.getLsbD_ushiftRight, Nat.add_zero]

/-- The signed value is halved and rounded down at every step; the register is its remainder modulo 256. -/
theorem iterates_asr :
    Opcode.asr.Iterates n v s (repeated .asr (n - 1) v s).1 (repeated .asr n v s).1
      (repeated .asr n v s).2 := by
  refine ⟨?_, fun hn => ?_⟩
  · have hsigned : (v.sshiftRight n).toInt = v.toInt / 2 ^ n := by
      rw [BitVec.toInt_sshiftRight, Int.shiftRight_eq_div_pow]
      norm_cast
    have hlt := (v.sshiftRight n).isLt
    have hregister : ((v.sshiftRight n).toNat : Int) = (v.sshiftRight n).toInt % 256 := by
      rw [BitVec.toInt_eq_toNat_cond]
      split <;> omega
    rw [repeated_asr, hregister, hsigned]
  · have hmsb : v.msb = v.getLsbD 7 := BitVec.msb_eq_getLsbD_last v
    rw [repeated_of_pos .asr hn, carry_expected_shift (by decide), repeated_asr,
      BitVec.getLsbD_sshiftRight, hmsb]
    generalize n - 1 = k
    by_cases hk : k < 8
    · have hmin : min k 7 = k := by omega
      simp [hk, hmin]
    · have hmin : min k 7 = 7 := by omega
      simp [hk, hmin]

theorem iterates_ror :
    Opcode.ror.Iterates n v s (repeated .ror (n - 1) v s).1 (repeated .ror n v s).1
      (repeated .ror n v s).2 := by
  have hrotated := withCarry_repeated_ror n v s
  refine ⟨?_, fun hn => ?_⟩
  · rw [← toNat_withCarry, hrotated, withCarry]
  · rw [rotateRight_of_mod_eq_zero _ hn] at hrotated
    exact withCarry_inj hrotated

theorem iterates_com :
    Opcode.com.Iterates n v s (repeated .com (n - 1) v s).1 (repeated .com n v s).1
      (repeated .com n v s).2 := by
  have htwice : ∀ v : Byte, 0xff#8 - (0xff#8 - v) = v := by decide
  have hvalue : ∀ v : Byte, (0xff#8 - v).toNat = 255 - v.toNat := by decide
  refine ⟨?_, fun hn => ?_⟩
  · rw [repeated_of_involutive n v s (fun _ _ => rfl) htwice]
    split
    · rfl
    · exact hvalue v
  · rw [repeated_of_pos .com hn]
    simp [get_expected, writes, compute, get_pack, resultFlags]

theorem iterates_neg :
    Opcode.neg.Iterates n v s (repeated .neg (n - 1) v s).1 (repeated .neg n v s).1
      (repeated .neg n v s).2 := by
  refine ⟨?_, fun hn => ?_⟩
  · rw [repeated_of_involutive n v s (fun _ _ => rfl) (fun v => BitVec.neg_neg)]
    split
    · rfl
    · have hv := v.isLt
      rw [BitVec.toNat_neg]
      omega
  · rw [repeated_of_pos .neg hn, carry_expected_neg, bne_iff_ne, halfCarry_expected_neg]
    exact ⟨Iff.rfl, Iff.rfl⟩

theorem iterates_swap :
    Opcode.swap.Iterates n v s (repeated .swap (n - 1) v s).1 (repeated .swap n v s).1
      (repeated .swap n v s).2 := by
  have htwice : ∀ v : Byte, (v <<< 4 ||| v >>> 4) <<< 4 ||| (v <<< 4 ||| v >>> 4) >>> 4 = v := by decide
  have hvalue : ∀ v : Byte, (v <<< 4 ||| v >>> 4).toNat = v.toNat % 16 * 16 + v.toNat / 16 := by decide
  refine ⟨?_, get_repeated_of_notMem List.not_mem_nil n v s, get_repeated_of_notMem List.not_mem_nil n v s⟩
  rw [repeated_of_involutive n v s (fun _ _ => rfl) htwice]
  split
  · rfl
  · exact hvalue v

theorem iterates_repeated (op : Opcode) :
    op.Iterates n v s (repeated op (n - 1) v s).1 (repeated op n v s).1 (repeated op n v s).2 := by
  cases op with
  | com => exact iterates_com n v s
  | neg => exact iterates_neg n v s
  | swap => exact iterates_swap n v s
  | inc => exact iterates_inc n v s
  | asr => exact iterates_asr n v s
  | lsr => exact iterates_lsr n v s
  | ror => exact iterates_ror n v s
  | dec => exact iterates_dec n v s

end Steps

end Oracle

theorem Instruction.foldl_effect_replicate (op : Opcode) (rd : Reg) (n : Nat) (f : RegisterFile) :
    let after := (List.replicate n (.unary op rd)).foldl effect f
    after.reg rd = (Oracle.repeated op n (f.reg rd) f.sreg).1 ∧
      after.sreg = (Oracle.repeated op n (f.reg rd) f.sreg).2 := by
  induction n with
  | zero => exact ⟨rfl, rfl⟩
  | succ n ih =>
    obtain ⟨hreg, hsreg⟩ := ih
    rw [List.replicate_succ', List.foldl_append, List.foldl_cons, List.foldl_nil]
    refine ⟨?_, ?_⟩
    · rw [reg_effect_unary, if_pos rfl, hreg, hsreg, Oracle.repeated]
    · rw [sreg_effect_unary, hreg, hsreg, Oracle.repeated]

namespace Machine

section Repeated

variable {m : Machine} {op : Opcode} {rd : Reg} {n : Nat}

theorem runs_repeated (hpc : m.pc.toNat < flashWords)
    (hflash : ∀ i < n, m.wordAt (m.pc.toNat + i) = (Instruction.unary op rd).encode) :
    m.Runs m.pc.toNat n (List.replicate n (.unary op rd)) := by
  have hholds : m.Holds m.pc.toNat (List.replicate n (.unary op rd)) := by
    intro k i hi
    obtain ⟨hk, rfl⟩ := List.getElem?_eq_some_iff.mp hi
    rw [List.length_replicate] at hk
    rw [hflash k hk, List.getElem_replicate, Instruction.decode_encode]
  exact hholds.runs (counterAt_toNat hpc).symm List.length_replicate

theorem calls_repeated (hpc : m.pc.toNat < flashWords)
    (hflash : ∀ i < n, m.wordAt (m.pc.toNat + i) = (Instruction.unary op rd).encode) :
    (calls call n m).2.reg rd = (Oracle.repeated op n (m.reg rd) m.sreg).1 ∧
      (calls call n m).2.sreg = (Oracle.repeated op n (m.reg rd) m.sreg).2 := by
  have hruns := runs_repeated hpc hflash
  rw [hruns.reg, hruns.sreg]
  exact Instruction.foldl_effect_replicate op rd n m.toRegisterFile

theorem calls_iterate (hpc : m.pc.toNat < flashWords)
    (hflash : ∀ i < n, m.wordAt (m.pc.toNat + i) = (Instruction.unary op rd).encode) :
    (calls call n m).1 = List.replicate n (.ok ()) ∧
      op.Iterates n (m.reg rd) m.sreg ((calls call (n - 1) m).2.reg rd) ((calls call n m).2.reg rd)
        (calls call n m).2.sreg := by
  have hbefore : ∀ i < n - 1, m.wordAt (m.pc.toNat + i) = (Instruction.unary op rd).encode :=
    fun i hi => hflash i (by omega)
  obtain ⟨hreg, hsreg⟩ := calls_repeated hpc hflash
  refine ⟨(runs_repeated hpc hflash).answers, ?_⟩
  rw [hreg, hsreg, (calls_repeated hpc hbefore).1]
  exact Oracle.iterates_repeated n (m.reg rd) m.sreg op

end Repeated

/-- Two rotations, the first in the last cell of the flash, with the carry set before them. -/
theorem calls_iterate_straddling :
    let m : Machine := ((initial.setRegister 16 0x05#8).setStatus 0x01#8).assemble
      [.unary .ror 16, .unary .ror 16] 0x3fff#16
    m.pc.toNat < flashWords ∧
      (∀ i < 2, m.wordAt (m.pc.toNat + i) = (Instruction.unary .ror 16).encode) ∧
      256 * ((calls call 2 m).2.sreg.get .carry).toNat + ((calls call 2 m).2.reg 16).toNat = 0xc1 := by
  intro m
  have hpc : m.pc.toNat = 0x3fff := by rw [pc_assemble, toNat_counterAt]; rfl
  have hflash : ∀ i < 2, m.wordAt (m.pc.toNat + i) = (Instruction.unary .ror 16).encode := by
    intro i hi
    have hword : m.wordAt (0x3fff + i) = _ := wordAt_assemble _ (by decide) hi
    rw [hpc, hword]
    obtain rfl | rfl : i = 0 ∨ i = 1 := by omega
    · rfl
    · rfl
  have hlt : m.pc.toNat < flashWords := by
    rw [hpc]
    decide
  refine ⟨hlt, hflash, ?_⟩
  exact ((calls_iterate hlt hflash).2.1).trans (by decide)

end Machine

end AvrConform
