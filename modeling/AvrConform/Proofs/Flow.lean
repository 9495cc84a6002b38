import AvrConform.Proofs.Frame
import AvrConform.Proofs.Stopping
set_option autoImplicit false

/-! Where data can flow. An instruction computes from its own register and, if it is a rotation, from the
carry; it reads no other register and no other flag. So of two runs through one program, what they had in
common at the start they have in common at the end, together with every flag written on the way, and one
register reaches another one through a rotation only. -/

namespace AvrConform

namespace Oracle

theorem compute_of_carry_eq {s s' : Sreg} (h : s'.get .carry = s.get .carry) (op : Opcode) (v : Byte) :
    compute op v s' = compute op v s := by
  have hbit : ∀ s : Sreg,
      (s >>> Flag.carry.bit) &&& 1#8 = (BitVec.ofBool (s.get .carry)).setWidth 8 := by decide
  cases op with
  | ror => simp only [compute, hbit, h]
  | _ => rfl

/-- Rotation is the only opcode that reads it. -/
theorem compute_of_ne_ror {op : Opcode} (h : op ≠ .ror) (v : Byte) (s s' : Sreg) :
    compute op v s' = compute op v s := by
  cases op with
  | ror => exact absurd rfl h
  | _ => rfl

theorem subset_writes_of_ne_swap {op : Opcode} (h : op ≠ .swap) :
    [.zero, .negative, .overflow, .sign] ⊆ writes op := by
  cases op with
  | swap => exact absurd rfl h
  | _ => decide

end Oracle

structure RegisterFile.AgreeOn (fs : List Flag) (file file' : RegisterFile) : Prop where
  reg : ∀ r, file'.reg r = file.reg r
  flag : ∀ f ∈ fs, file'.sreg.get f = file.sreg.get f

theorem RegisterFile.AgreeOn.mono {fs gs : List Flag} {file file' : RegisterFile}
    (h : AgreeOn gs file file') (hsub : fs ⊆ gs) : AgreeOn fs file file' :=
  ⟨h.reg, fun f hf => h.flag f (hsub hf)⟩

namespace Instruction

variable {fs : List Flag} {file file' : RegisterFile}

/-- As long as the carry is the same on both sides, every flag that is written is the same afterwards. -/
theorem agreeOn_effect (hcarry : .carry ∈ fs) (h : file.AgreeOn fs file') (i : Instruction) :
    (i.effect file).AgreeOn (i.flags ++ fs) (i.effect file') := by
  cases i with
  | nop => exact h
  | unary op rd =>
    have hcompute : Oracle.compute op (file'.reg rd) file'.sreg =
        Oracle.compute op (file.reg rd) file.sreg := by
      rw [h.reg, Oracle.compute_of_carry_eq (h.flag .carry hcarry)]
    constructor
    · intro r
      rw [reg_effect_unary, reg_effect_unary, Oracle.expected, hcompute, h.reg]
      rfl
    · intro f hf
      rw [sreg_effect_unary, sreg_effect_unary, Oracle.get_expected, Oracle.get_expected, hcompute]
      by_cases hwritten : f ∈ Oracle.writes op
      · rw [if_pos hwritten, if_pos hwritten]
      · rw [if_neg hwritten, if_neg hwritten]
        exact h.flag f ((List.mem_append.mp hf).resolve_left hwritten)

theorem agreeOn_foldl_effect (is : List Instruction) (hcarry : .carry ∈ fs) (h : file.AgreeOn fs file') :
    (is.foldl effect file).AgreeOn (is.flatMap flags ++ fs) (is.foldl effect file') := by
  induction is generalizing fs file file' with
  | nil => exact h
  | cons i is ih =>
    have hrest := ih (List.mem_append_right i.flags hcarry) (agreeOn_effect hcarry h i)
    refine hrest.mono fun f hf => ?_
    simp only [List.flatMap_cons, List.mem_append] at hf ⊢
    rcases hf with (hi | his) | hfs
    · exact .inr (.inl hi)
    · exact .inl his
    · exact .inr (.inr hfs)

theorem reg_effect_congr {i : Instruction} {r : Reg} (hi : i ≠ .unary .ror r)
    (h : file'.reg r = file.reg r) : (i.effect file').reg r = (i.effect file).reg r := by
  cases i with
  | nop => exact h
  | unary op rd =>
    rw [reg_effect_unary, reg_effect_unary]
    by_cases hr : r = rd
    · subst hr
      have hop : op ≠ .ror := fun e => hi (e ▸ rfl)
      rw [if_pos rfl, if_pos rfl, Oracle.expected, h,
        Oracle.compute_of_ne_ror hop (file.reg r) file.sreg file'.sreg]
      rfl
    · rw [if_neg hr, if_neg hr, h]

theorem reg_foldl_effect_congr {is : List Instruction} {r : Reg} (his : .unary .ror r ∉ is)
    (h : file'.reg r = file.reg r) :
    (is.foldl effect file').reg r = (is.foldl effect file).reg r := by
  induction is generalizing file file' with
  | nil => exact h
  | cons i is ih =>
    rw [List.mem_cons, not_or] at his
    exact ih his.2 (reg_effect_congr (Ne.symm his.1) h)

end Instruction

namespace Machine

theorem instructions_congr {m m' : Machine} (hflash : m'.flash = m.flash) (hpc : m'.pc = m.pc) (n : Nat) :
    m'.instructions n = m.instructions n := by
  induction n generalizing m m' with
  | zero => rfl
  | succ n ih =>
    have hfetch := fetch_pc_congr hflash hpc
    cases hd : Instruction.decode (m.fetch m.pc) with
    | none => rw [instructions_of_invalid hd, instructions_of_invalid (by rw [hfetch, hd])]
    | some i =>
      have hrest : (m'.execute i).instructions n = (m.execute i).instructions n :=
        ih (by rw [flash_execute, flash_execute, hflash]) (by rw [pc_execute, pc_execute, hpc])
      rw [instructions_succ hd, instructions_succ (by rw [hfetch, hd]), hrest]

theorem answers_congr {m m' : Machine} (hflash : m'.flash = m.flash) (hpc : m'.pc = m.pc) (n : Nat) :
    (calls call n m').1 = (calls call n m).1 := by
  have hstart : SameTrack m'.executed m.executed m' m := ⟨hflash.symm, hpc.symm, 0, rfl, rfl⟩
  exact (calls_related (fun _ _ h => h.call) n hstart).1

theorem calls_flow_through_carry (m m' : Machine) (hflash : m'.flash = m.flash) (hpc : m'.pc = m.pc)
    (n : Nat) :
    let after := (calls call n m).2
    let after' := (calls call n m').2
    let executed := m.instructions n
    m'.instructions n = executed ∧
    (calls call n m').1 = (calls call n m).1 ∧
    ((∀ r, m'.reg r = m.reg r) → m'.sreg.get .carry = m.sreg.get .carry →
      (∀ r, after'.reg r = after.reg r) ∧
      after'.sreg.get .carry = after.sreg.get .carry ∧
      ∀ op rd, .unary op rd ∈ executed → op ≠ .swap →
        ∀ f ∈ [Flag.zero, .negative, .overflow, .sign], after'.sreg.get f = after.sreg.get f) ∧
    ∀ r, m'.reg r = m.reg r → .unary .ror r ∉ executed → after'.reg r = after.reg r := by
  intro after after' executed
  have hexecuted : m'.instructions n = executed := instructions_congr hflash hpc n
  refine ⟨hexecuted, answers_congr hflash hpc n, fun hregs hcarry => ?_, fun r hr hror => ?_⟩
  · have hstart : m.toRegisterFile.AgreeOn [.carry] m'.toRegisterFile :=
      ⟨hregs, fun f hf => List.mem_singleton.mp hf ▸ hcarry⟩
    have hend := Instruction.agreeOn_foldl_effect executed List.mem_cons_self hstart
    have hflag : ∀ f ∈ executed.flatMap Instruction.flags ++ [.carry],
        after'.sreg.get f = after.sreg.get f := by
      intro f hf
      rw [m'.sreg_calls n, m.sreg_calls n, hexecuted]
      exact hend.flag f hf
    refine ⟨fun r => ?_, hflag .carry (by simp), fun op rd hmem hop f hf => hflag f ?_⟩
    · rw [m'.reg_calls n, m.reg_calls n, hexecuted]
      exact hend.reg r
    · have hwritten : f ∈ (Instruction.unary op rd).flags := Oracle.subset_writes_of_ne_swap hop hf
      exact List.mem_append_left _ (List.mem_flatMap.mpr ⟨_, hmem, hwritten⟩)
  · rw [m'.reg_calls n, m.reg_calls n, hexecuted]
    exact Instruction.reg_foldl_effect_congr hror hr

/-- A bit that leaves register 4 through the carry enters register 5 and not register 6: runs from status
registers that differ in every flag but the carry, and from machines with nothing in common but register 6. -/
theorem calls_flow_through_carry_lsrRor :
    let p : List Instruction := [.unary .lsr 4, .unary .ror 5, .unary .inc 6]
    let m := ((initial.setRegister 4 0x03#8).setStatus 0xe0#8).assemble p 0x3fff#16
    let m' := m.setStatus 0x1e#8
    let m'' := (m.setStatus 0x1f#8).setRegister 4 0x02#8
    (m'.flash = m.flash ∧ m'.pc = m.pc ∧ (∀ r, m'.reg r = m.reg r) ∧
      m'.sreg.get .carry = m.sreg.get .carry ∧
      .unary .inc 6 ∈ m.instructions 3 ∧ Opcode.inc ≠ .swap ∧
      (calls call 3 m').2.reg 5 = (calls call 3 m).2.reg 5 ∧
      (calls call 3 m').2.sreg.get .zero = (calls call 3 m).2.sreg.get .zero) ∧
    m''.flash = m.flash ∧ m''.pc = m.pc ∧ m''.reg 6 = m.reg 6 ∧ .unary .ror 6 ∉ m.instructions 3 ∧
      (calls call 3 m'').2.reg 6 = (calls call 3 m).2.reg 6 := by
  intro p m m' m''
  have hexecuted : m.instructions 3 = p := (runs_assemble _ (by decide) (Nat.le_refl 3)).instructions
  have hinc : .unary .inc 6 ∈ m.instructions 3 := by
    rw [hexecuted]
    decide
  have hror : .unary .ror 6 ∉ m.instructions 3 := by
    rw [hexecuted]
    decide
  have hcarry : m'.sreg.get .carry = m.sreg.get .carry := by
    have hstart : m.sreg = 0xe0#8 := rfl
    have hstart' : m'.sreg = 0x1e#8 := rfl
    rw [hstart, hstart']
    decide
  have hsix : m''.reg 6 = m.reg 6 := reg_setRegister _ 4 6 _
  obtain ⟨-, -, hsame, -⟩ := calls_flow_through_carry m m' rfl rfl 3
  obtain ⟨hregs, -, hflags⟩ := hsame (fun _ => rfl) hcarry
  obtain ⟨-, -, -, hkept⟩ := calls_flow_through_carry m m'' rfl rfl 3
  exact ⟨⟨rfl, rfl, fun _ => rfl, hcarry, hinc, by decide, hregs 5,
    hflags .inc 6 hinc (by decide) .zero (by decide)⟩, rfl, rfl, hsix, hror, hkept 6 hsix hror⟩

end Machine

end AvrConform
