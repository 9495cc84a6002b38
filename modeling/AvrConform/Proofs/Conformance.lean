import AvrConform.Proofs.Judgement
import AvrConform.Proofs.Trial
set_option autoImplicit false

/-! Batches on the machine itself, for any architecture. The machine knows nothing of the architecture,
so a table that forces flags the instructions write, or that moves the counter otherwise, makes cases
fail; `Simulator.report_machine` says which, and with what divergences. -/

namespace AvrConform

theorem Byte.setWidth_inj {b d : Byte} : b.setWidth 16 = d.setWidth 16 ↔ b = d := by
  constructor
  · intro h
    have hback := congrArg (BitVec.setWidth 8) h
    simpa using hback
  · rintro rfl
    rfl

namespace Case

/-- The architecture lets the case write its flags and moves the counter by one word. -/
def fits (a : Arch) (c : Case) : Bool :=
  c.flags &&& a.controlMask = 0#8 ∧ a.nextPc 0x0100#16 = 0x0101#16

/-- What a case finds wrong with a machine that is right. -/
def falseAlarms (a : Arch) (c : Case) : List Divergence :=
  (if c.flags &&& a.controlMask = 0#8 then []
    else [.mismatch .sreg ((c.flags &&& ~~~a.controlMask).setWidth 16) (c.flags.setWidth 16)]) ++
  (if a.nextPc 0x0100#16 = 0x0101#16 then []
    else [.mismatch .pc (a.nextPc 0x0100#16) 0x0101#16])

theorem falseAlarms_eq_nil_iff (a : Arch) (c : Case) :
    c.falseAlarms a = [] ↔ c.fits a = true := by
  by_cases hs : c.flags &&& a.controlMask = 0#8 <;>
    by_cases hp : a.nextPc 0x0100#16 = 0x0101#16 <;> simp [falseAlarms, fits, hs, hp]

theorem touches_sreg_of_flags {c : Case} (h : c.flags ≠ 0#8) : c.touches .sreg = true := by
  by_cases hwrites : Oracle.writes c.opcode = []
  · exact absurd (Oracle.expected_snd_of_writes_eq_nil hwrites c.operand 0#8) h
  · simp [touches, hwrites]

theorem fits_avr (c : Case) : c.fits Arch.avr = true := by
  have hpc : Arch.avr.nextPc 0x0100#16 = 0x0101#16 := Arch.nextPc_startPc_avr
  simp [fits, c.flags_and_controlMask_avr, hpc]

theorem entry_of_mem_falseAlarms {a : Arch} {c : Case} {d : Divergence} (h : d ∈ c.falseAlarms a) :
    d.entry = .sreg ∨ d.entry = .pc := by
  rw [falseAlarms, List.mem_append] at h
  rcases h with h | h
  · split at h
    · cases h
    · rw [List.mem_singleton.mp h]
      exact .inl rfl
  · split at h
    · cases h
    · rw [List.mem_singleton.mp h]
      exact .inr rfl

def reading (a : Arch) (c : Case) (m : Machine) : RegisterFile :=
  ((m.prepare a c c.word).execute c.instruction).readRegisters a

section Reading

variable {a : Arch} {c : Case} (m : Machine)

theorem reg_prepare {r : Reg} (hr : r.val < a.registerCount) :
    (m.prepare a c c.word).reg r = (c.preset a).reg r := by
  rw [Machine.toRegisterFile_prepare, Machine.reg_loadRegisters, if_pos hr]

theorem sreg_prepare : (m.prepare a c c.word).sreg = 0#8 := c.sreg_preset a

/-- The registers of the table show what they should, wherever the destination is. -/
theorem reg_reading {r : Reg} (hr : r.val < a.registerCount) :
    (c.reading a m).reg r = (c.expected a (c.preset a)).reg r := by
  rw [reading, Machine.reg_readRegisters, if_pos hr, instruction, Machine.reg_execute_unary,
    reg_expected, reg_prepare m hr, sreg_prepare, sreg_preset]
  by_cases hrd : r = c.rd
  · subst hrd
    rw [reg_prepare m hr]
  · rw [if_neg hrd, if_neg hrd]

theorem sreg_reading (h : c.rd.val < a.registerCount) : (c.reading a m).sreg = c.flags := by
  rw [reading, Machine.sreg_readRegisters, instruction, Machine.sreg_execute_unary,
    reg_prepare m h, sreg_prepare, flags, reg_preset, if_pos rfl]

theorem pc_reading : (c.reading a m).pc = 0x0101#16 := by
  rw [reading, Machine.pc_readRegisters, Machine.pc_execute, Machine.pc_prepare,
    Arch.nextPc_startPc_avr]

theorem divergence?_reading_gpr {r : Reg} (hr : r ∈ a.regs) :
    c.divergence? a (c.reading a m) (.gpr r) = none := by
  have hreg := reg_reading (c := c) m ((a.mem_regs_iff r).mp hr)
  rw [divergence?_eq_none_iff, RegisterFile.get, RegisterFile.get, hreg]

theorem divergence?_reading_sreg (h : c.rd.val < a.registerCount) :
    c.divergence? a (c.reading a m) .sreg =
      if c.flags &&& a.controlMask = 0#8 then none
      else some (.mismatch .sreg ((c.flags &&& ~~~a.controlMask).setWidth 16)
        (c.flags.setWidth 16)) := by
  have hexpected : (c.expected a (c.preset a)).get .sreg =
      (c.flags &&& ~~~a.controlMask).setWidth 16 := by
    rw [RegisterFile.get, sreg_expected_preset]
  have hshown : (c.reading a m).get .sreg = c.flags.setWidth 16 := by
    rw [RegisterFile.get, sreg_reading m h]
  simp only [divergence?, hexpected, hshown, Byte.setWidth_inj, Sreg.and_not_eq_self_iff]
  by_cases hfree : c.flags &&& a.controlMask = 0#8
  · rw [if_pos hfree, if_pos hfree]
  · have hflags : c.flags ≠ 0#8 := by
      intro hzero
      rw [hzero] at hfree
      exact hfree (BitVec.zero_and)
    rw [if_neg hfree, if_neg hfree, touches_sreg_of_flags hflags, if_pos rfl]

theorem divergence?_reading_pc :
    c.divergence? a (c.reading a m) .pc =
      if a.nextPc 0x0100#16 = 0x0101#16 then none
      else some (.mismatch .pc (a.nextPc 0x0100#16) 0x0101#16) := by
  have hexpected : (c.expected a (c.preset a)).get .pc = a.nextPc 0x0100#16 := rfl
  have hshown : (c.reading a m).get .pc = 0x0101#16 := pc_reading m
  simp only [divergence?, hexpected, hshown, touches, ↓reduceIte]

theorem divergences_reading (h : c.rd.val < a.registerCount) :
    c.divergences a (c.reading a m) = c.falseAlarms a := by
  have hgprs : (a.regs.map RegId.gpr).filterMap (c.divergence? a (c.reading a m)) = [] := by
    rw [List.filterMap_eq_nil_iff]
    intro i hi
    obtain ⟨r, hr, rfl⟩ := List.mem_map.mp hi
    exact divergence?_reading_gpr m hr
  rw [divergences, Arch.ids, List.filterMap_append, hgprs, List.nil_append, List.filterMap_cons,
    List.filterMap_cons, List.filterMap_nil, divergence?_reading_sreg m h,
    divergence?_reading_pc, falseAlarms]
  by_cases hs : c.flags &&& a.controlMask = 0#8 <;>
    by_cases hp : a.nextPc 0x0100#16 = 0x0101#16 <;> simp [hs, hp]

end Reading

end Case

namespace Simulator

theorem value_observe_reading (a : Arch) (c : Case) (m : Machine) :
    (machine.observe a c m).value.1 = .ok (c.reading a m) := by
  rw [value_observe_machine]
  rfl

theorem value_check_reading (a : Arch) (c : Case) (m : Machine) :
    (machine.check a c m).value.1 = c.judge a (c.reading a m) := by
  rw [value_check, value_observe_reading]
  rfl

theorem check_machine {a : Arch} {c : Case} (h : c.rd.val < a.registerCount) (m : Machine) :
    (machine.check a c m).value.1 =
      if c.fits a then .ok () else .error ⟨c, c.word, .assertion (c.falseAlarms a)⟩ := by
  rw [value_check_reading, Case.judge_eq, Case.divergences_reading m h]
  by_cases hfits : c.fits a = true
  · rw [if_pos ((c.falseAlarms_eq_nil_iff a).mpr hfits), if_pos hfits]
  · rw [if_neg (fun hnil => hfits ((c.falseAlarms_eq_nil_iff a).mp hnil)), if_neg hfits]

theorem report_machine {a : Arch} {cs : List Case} (h : ∀ c ∈ cs, c.rd.val < a.registerCount)
    (m : Machine) :
    (machine.runBatch a cs m).value.1 =
      ⟨(cs.filter (fun c => c.fits a)).length,
        (cs.filter (fun c => !c.fits a)).map
          (fun c => ⟨c, c.word, .assertion (c.falseAlarms a)⟩)⟩ := by
  rw [report_runBatch, verdicts, Logged.thread_of_stateless _ (fun m c hc => check_machine (h c hc) m)]
  exact Report.ofVerdicts_map_ite (fun c : Case => c.fits a) _ cs

theorem report_machine_avr (cs : List Case) (m : Machine) :
    (machine.runBatch Arch.avr cs m).value.1 = ⟨cs.length, []⟩ := by
  rw [report_machine (fun c _ => c.rd.isLt) m]
  simp [Case.fits_avr]

theorem runBatch_machine (a : Arch) (cs : List Case) (h : ∀ c ∈ cs, c.rd.val < a.registerCount)
    (m : Machine) :
    (machine.runBatch a cs m).value.1 =
        ⟨(cs.filter (fun c => c.fits a)).length,
          (cs.filter (fun c => !c.fits a)).map
            (fun c => ⟨c, c.word, .assertion (c.falseAlarms a)⟩)⟩ ∧
      (∀ f ∈ (machine.runBatch a cs m).value.1.failures,
        ∃ ds, f.cause = .assertion ds ∧ ∀ d ∈ ds, d.entry = .sreg ∨ d.entry = .pc) ∧
      ∀ (cs' : List Case) (m' : Machine),
        (machine.runBatch Arch.avr cs' m').value.1 = ⟨cs'.length, []⟩ := by
  refine ⟨report_machine h m, ?_, report_machine_avr⟩
  intro f hf
  rw [report_machine h m] at hf
  obtain ⟨c, -, rfl⟩ := List.mem_map.mp hf
  exact ⟨c.falseAlarms a, rfl, fun d hd => Case.entry_of_mem_falseAlarms hd⟩

/-- Four registers, and a table that reserves two of the flags that `neg` writes. -/
def reserved : Arch := { registerCount := 4, controlFlags := (.carry, .halfCarry) }

theorem runBatch_reserved :
    (∀ c ∈ [⟨.neg, 3, 0x80#8⟩, (⟨.swap, 0, 0x12#8⟩ : Case)], c.rd.val < reserved.registerCount) ∧
      (machine.runBatch reserved [⟨.neg, 3, 0x80#8⟩, ⟨.swap, 0, 0x12#8⟩]
        ((Machine.initial.setStatus 0xff#8).setCounter 0x1234#16)).value.1 =
        ⟨1, [⟨⟨.neg, 3, 0x80#8⟩, 0x9431#16,
          .assertion [.mismatch .sreg 0x000c#16 0x000d#16]⟩]⟩ :=
  ⟨by decide, (runBatch_machine reserved _ (by decide) _).1.trans (by decide)⟩

end Simulator

end AvrConform
