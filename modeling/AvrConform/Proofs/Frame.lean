import AvrConform.Proofs.Program
set_option autoImplicit false

/-! What a run leaves alone, and what its flags always say. An instruction writes one register and the flags
of its opcode; what none of the executed instructions writes is as it was. The flags that are written
together describe one result, so whatever the status register held before, from the first instruction that
writes flags on its sign agrees with the other flags. -/

namespace AvrConform

/-- The sign is that of the exact result, and no result is zero and negative at once. -/
structure Sreg.Coherent (s : Sreg) : Prop where
  sign : s.get .sign = (s.get .negative != s.get .overflow)
  zero_negative : ¬(s.get .zero = true ∧ s.get .negative = true)

namespace Oracle

theorem get_resultFlags {op : Opcode} (h : op ≠ .swap) (v : Byte) (s : Sreg) :
    Sreg.get (expected op v s).2 .zero = ((expected op v s).1 == 0#8) ∧
      Sreg.get (expected op v s).2 .negative = (expected op v s).1.msb ∧
      Sreg.get (expected op v s).2 .sign =
        (Sreg.get (expected op v s).2 .negative != Sreg.get (expected op v s).2 .overflow) := by
  simp only [get_expected]
  cases op with
  | swap => exact absurd rfl h
  | _ => simp [expected, compute, writes, get_pack, shiftFlags, resultFlags]

theorem coherent_expected {op : Opcode} (h : op ≠ .swap) (v : Byte) (s : Sreg) :
    (expected op v s).2.Coherent := by
  obtain ⟨hzero, hnegative, hsign⟩ := get_resultFlags h v s
  refine ⟨hsign, ?_⟩
  rw [hzero, hnegative, beq_iff_eq]
  rintro ⟨hres, hmsb⟩
  rw [hres] at hmsb
  cases hmsb

end Oracle

namespace Instruction

def destination? : Instruction → Option Reg
  | .nop => none
  | .unary _ rd => some rd

def flags : Instruction → List Flag
  | .nop => []
  | .unary op _ => Oracle.writes op

theorem reg_effect_of_ne {i : Instruction} {r : Reg} (h : i.destination? ≠ some r) (f : RegisterFile) :
    (i.effect f).reg r = f.reg r := by
  cases i with
  | nop => rfl
  | unary op rd =>
    have hne : r ≠ rd := fun e => h (congrArg some e.symm)
    rw [reg_effect_unary, if_neg hne]

theorem get_effect_of_notMem {i : Instruction} {f : Flag} (h : f ∉ i.flags) (file : RegisterFile) :
    Sreg.get (i.effect file).sreg f = file.sreg.get f := by
  cases i with
  | nop => rfl
  | unary op rd =>
    have hwrites : f ∉ Oracle.writes op := h
    rw [sreg_effect_unary, Oracle.get_expected, if_neg hwrites]

theorem coherent_effect_unary {op : Opcode} (h : op ≠ .swap) (rd : Reg) (f : RegisterFile) :
    ((Instruction.unary op rd).effect f).sreg.Coherent := Oracle.coherent_expected h _ _

theorem coherent_effect {f : RegisterFile} (h : f.sreg.Coherent) (i : Instruction) :
    (i.effect f).sreg.Coherent := by
  cases i with
  | nop => exact h
  | unary op rd =>
    by_cases hop : op = .swap
    · subst hop
      rwa [sreg_effect_unary, Oracle.expected_snd_of_writes_eq_nil rfl]
    · exact coherent_effect_unary hop rd f

variable {is : List Instruction}

theorem reg_foldl_effect {r : Reg} (h : ∀ i ∈ is, i.destination? ≠ some r) (f : RegisterFile) :
    (is.foldl effect f).reg r = f.reg r := by
  induction is generalizing f with
  | nil => rfl
  | cons i is ih =>
    rw [List.foldl_cons, ih (fun j hj => h j (List.mem_cons_of_mem i hj)),
      reg_effect_of_ne (h i List.mem_cons_self)]

theorem get_foldl_effect {f : Flag} (h : f ∉ is.flatMap flags) (file : RegisterFile) :
    Sreg.get (is.foldl effect file).sreg f = file.sreg.get f := by
  induction is generalizing file with
  | nil => rfl
  | cons i is ih =>
    rw [List.flatMap_cons, List.mem_append, not_or] at h
    rw [List.foldl_cons, ih h.2, get_effect_of_notMem h.1]

theorem coherent_foldl_effect {f : RegisterFile} (h : f.sreg.Coherent) :
    (is.foldl effect f).sreg.Coherent := by
  induction is generalizing f with
  | nil => exact h
  | cons i is ih => exact ih (coherent_effect h i)

/-- One instruction that writes flags is enough, wherever it stands. -/
theorem coherent_foldl_effect_of_mem {op : Opcode} {rd : Reg} (hop : op ≠ .swap)
    (hmem : .unary op rd ∈ is) (f : RegisterFile) : (is.foldl effect f).sreg.Coherent := by
  obtain ⟨before, after, rfl⟩ := List.append_of_mem hmem
  rw [List.foldl_append, List.foldl_cons]
  exact coherent_foldl_effect (coherent_effect_unary hop rd _)

end Instruction

namespace Machine

def instructions (n : Nat) (m : Machine) : List Instruction := (m.executions n).map Prod.snd

theorem instructions_of_invalid {m : Machine} (h : Instruction.decode (m.fetch m.pc) = none) (n : Nat) :
    m.instructions n = [] := by
  cases n with
  | zero => rfl
  | succ n =>
    rw [instructions, executions, runEvents, step_eq_error h]
    rfl

theorem instructions_succ {m : Machine} {i : Instruction}
    (h : Instruction.decode (m.fetch m.pc) = some i) (n : Nat) :
    m.instructions (n + 1) = i :: (m.execute i).instructions n := by
  rw [instructions, executions_succ h]
  rfl

theorem Runs.instructions {m : Machine} {a n : Nat} {is : List Instruction} (h : m.Runs a n is) :
    m.instructions n = is := by
  rw [Machine.instructions, h.executions]
  apply List.ext_getElem
  · simp
  · simp

/-- Steps do to the registers and flags what the instructions they execute do; a step that fails does
nothing. -/
theorem toRegisterFile_calls (m : Machine) (n : Nat) :
    (calls call n m).2.toRegisterFile =
      { (m.instructions n).foldl Instruction.effect m.toRegisterFile with
        pc := (calls call n m).2.pc } := by
  induction n generalizing m with
  | zero => rfl
  | succ n ih =>
    cases hd : Instruction.decode (m.fetch m.pc) with
    | none => rw [instructions_of_invalid hd, calls_of_fixed (call_eq_error hd)]; rfl
    | some i =>
      have hcalls : (calls call (n + 1) m).2 = (calls call n (m.execute i)).2 := by
        rw [calls_succ (call_eq_ok hd)]
      rw [hcalls, ih, instructions_succ hd, List.foldl_cons, toRegisterFile_execute,
        Instruction.foldl_effect_with_pc]

theorem reg_calls (m : Machine) (n : Nat) (r : Reg) :
    (calls call n m).2.reg r = ((m.instructions n).foldl Instruction.effect m.toRegisterFile).reg r := by
  rw [toRegisterFile_calls]
  rfl

theorem sreg_calls (m : Machine) (n : Nat) :
    (calls call n m).2.sreg = ((m.instructions n).foldl Instruction.effect m.toRegisterFile).sreg := by
  rw [toRegisterFile_calls]

theorem calls_frame (m : Machine) (n : Nat) :
    let after := (calls call n m).2
    let executed := m.instructions n
    (∀ r, (∀ i ∈ executed, i.destination? ≠ some r) → after.reg r = m.reg r) ∧
    (∀ f, f ∉ executed.flatMap Instruction.flags → after.sreg.get f = m.sreg.get f) ∧
    (∀ f ∈ [Flag.bitCopy, .interrupt], after.sreg.get f = m.sreg.get f) ∧
    ((∀ rd, .unary .neg rd ∉ executed) → after.sreg.get .halfCarry = m.sreg.get .halfCarry) ∧
    (m.sreg.Coherent → after.sreg.Coherent) ∧
    ∀ op rd, .unary op rd ∈ executed → op ≠ .swap → after.sreg.Coherent := by
  intro after executed
  have hflag : ∀ f, f ∉ executed.flatMap Instruction.flags → after.sreg.get f = m.sreg.get f := by
    intro f hf
    rw [m.sreg_calls n]
    exact Instruction.get_foldl_effect hf _
  have hwrites : ∀ {f}, f ∈ executed.flatMap Instruction.flags →
      ∃ op rd, .unary op rd ∈ executed ∧ f ∈ Oracle.writes op := by
    intro f hf
    obtain ⟨i, hi, hfi⟩ := List.mem_flatMap.mp hf
    cases i with
    | nop => cases hfi
    | unary op rd => exact ⟨op, rd, hi, hfi⟩
  refine ⟨fun r hr => ?_, hflag, fun f hf => hflag f ?_, fun hneg => hflag _ ?_, fun h => ?_,
    fun op rd hmem hop => ?_⟩
  · rw [m.reg_calls n]
    exact Instruction.reg_foldl_effect hr _
  · intro hmem
    obtain ⟨op, -, -, hop⟩ := hwrites hmem
    exact Oracle.control_notMem_writes op f hf hop
  · intro hmem
    obtain ⟨op, rd, hi, hop⟩ := hwrites hmem
    exact hneg rd (Oracle.halfCarry_mem_writes_iff.mp hop ▸ hi)
  · rw [m.sreg_calls n]
    exact Instruction.coherent_foldl_effect h
  · rw [m.sreg_calls n]
    exact Instruction.coherent_foldl_effect_of_mem hop hmem _

/-- An instruction that writes no flags and one that does, the first in the last cell of the flash. -/
theorem calls_frame_swapThenRotate :
    let m := ((initial.setRegister 17 0x01#8).setStatus 0xe1#8).assemble
      [.unary .swap 3, .unary .ror 17] 0x3fff#16
    let executed := m.instructions 2
    let after := (calls call 2 m).2
    ((∀ i ∈ executed, i.destination? ≠ some 16) ∧ after.reg 16 = m.reg 16) ∧
      (.interrupt ∉ executed.flatMap Instruction.flags ∧
        after.sreg.get .interrupt = m.sreg.get .interrupt) ∧
      ((∀ rd, .unary .neg rd ∉ executed) ∧ after.sreg.get .halfCarry = m.sreg.get .halfCarry) ∧
      (m.sreg.Coherent ∧ after.sreg.Coherent) ∧ .unary .ror 17 ∈ executed ∧ after.sreg.Coherent := by
  intro m
  have hexecuted : m.instructions 2 = [.unary .swap 3, .unary .ror 17] :=
    (runs_assemble _ (by decide) (Nat.le_refl 2)).instructions
  have hregister : ∀ i ∈ m.instructions 2, i.destination? ≠ some 16 := by
    rw [hexecuted]
    decide
  have hflag : .interrupt ∉ (m.instructions 2).flatMap Instruction.flags := by
    rw [hexecuted]
    decide
  have hneg : ∀ rd, .unary .neg rd ∉ m.instructions 2 := by
    rw [hexecuted]
    decide
  have hmem : .unary .ror 17 ∈ m.instructions 2 := by
    rw [hexecuted]
    decide
  have hsreg : m.sreg = 0xe1#8 := rfl
  have hcoherent : m.sreg.Coherent := by
    rw [hsreg]
    exact ⟨by decide, by decide⟩
  obtain ⟨hregs, hflags, -, hhalf, hkeeps, hwrites⟩ := calls_frame m 2
  exact ⟨⟨hregister, hregs 16 hregister⟩, ⟨hflag, hflags .interrupt hflag⟩, ⟨hneg, hhalf hneg⟩,
    ⟨hcoherent, hkeeps hcoherent⟩, hmem, hwrites .ror 17 hmem (by decide)⟩

end Machine

end AvrConform
