import AvrConform.Proofs.Accounting
import AvrConform.Proofs.Conformance
import AvrConform.Proofs.Coverage
set_option autoImplicit false

/-! What a case sees of the machine it finds. A destination that the architecture does not know is not
loaded, and what is left in it reaches the status register, except through `swap`. Every other case
gives one verdict on all machines, so a batch collects the verdicts that its cases get alone. -/

namespace AvrConform

theorem Profile.zero_mem_covers {op : Opcode} (h : op ≠ .swap) : Flag.zero ∈ (Profile.of op).covers := by
  revert h
  cases op <;> decide

namespace Case

/-- The case loads its operand, or does nothing with it that is compared. -/
def Contained (a : Arch) (c : Case) : Prop := c.rd.val < a.registerCount ∨ c.opcode = .swap

instance (a : Arch) (c : Case) : Decidable (c.Contained a) := inferInstanceAs (Decidable (_ ∨ _))

theorem reg_reading_eq (a : Arch) (c : Case) (m m' : Machine) (r : Reg) :
    (c.reading a m).reg r = (c.reading a m').reg r := by
  by_cases hr : r.val < a.registerCount
  · rw [reg_reading m hr, reg_reading m' hr]
  · rw [reading, reading, Machine.reg_readRegisters, Machine.reg_readRegisters, if_neg hr, if_neg hr]

/-- The way by which an earlier state could show. -/
theorem sreg_reading_eq_expected (a : Arch) (c : Case) (m : Machine) :
    (c.reading a m).sreg =
      (Oracle.expected c.opcode ((m.prepare a c c.word).reg c.rd) 0#8).2 := by
  rw [reading, Machine.sreg_readRegisters, instruction, Machine.sreg_execute_unary, sreg_prepare]

theorem reading_eq_of_contained {a : Arch} {c : Case} (h : c.Contained a) (m m' : Machine) :
    c.reading a m = c.reading a m' := by
  apply RegisterFile.ext_entries
  · exact c.reg_reading_eq a m m'
  · rcases h with hrd | hswap
    · rw [sreg_reading m hrd, sreg_reading m' hrd]
    · have hwrites : Oracle.writes c.opcode = [] := by rw [hswap]; rfl
      rw [sreg_reading_eq_expected, sreg_reading_eq_expected,
        Oracle.expected_snd_of_writes_eq_nil hwrites, Oracle.expected_snd_of_writes_eq_nil hwrites]
  · rw [pc_reading, pc_reading]

theorem reg_prepare_setRegister {a : Arch} {c : Case} (h : ¬ c.rd.val < a.registerCount)
    (m : Machine) (v : Byte) : ((m.setRegister c.rd v).prepare a c c.word).reg c.rd = v := by
  rw [Machine.toRegisterFile_prepare, Machine.reg_loadRegisters, if_neg h, Machine.reg_setRegister,
    if_pos rfl]

/-- Two values left in an unknown destination that the case tells apart. -/
theorem exists_reading_ne {a : Arch} {c : Case} (h : ¬ c.Contained a) (m : Machine) :
    ∃ v w, c.reading a (m.setRegister c.rd v) ≠ c.reading a (m.setRegister c.rd w) := by
  obtain ⟨hrd, hop⟩ := not_or.mp h
  -- Two operands that leave the zero flag set and clear; every opcode but `swap` has them.
  obtain ⟨⟨v, -, hset⟩, ⟨w, -, hclear⟩⟩ := Profile.drives_covers (Profile.zero_mem_covers hop)
  refine ⟨v, w, fun hsame => ?_⟩
  have hsreg := congrArg (fun f => Sreg.get f.sreg .zero) hsame
  simp only [sreg_reading_eq_expected, reg_prepare_setRegister hrd, hset, hclear] at hsreg
  cases hsreg

end Case

namespace Simulator

theorem observe_setRegister_congr_iff (a : Arch) (c : Case) (m : Machine) :
    (∀ v w, (machine.observe a c (m.setRegister c.rd v)).value.1 =
      (machine.observe a c (m.setRegister c.rd w)).value.1) ↔ c.Contained a := by
  simp only [value_observe_reading, Except.ok.injEq]
  constructor
  · intro hsame
    apply Decidable.byContradiction
    intro hleak
    obtain ⟨v, w, hne⟩ := Case.exists_reading_ne hleak m
    exact hne (hsame v w)
  · intro h v w
    exact Case.reading_eq_of_contained h _ _

theorem observe_congr_iff (a : Arch) (c : Case) :
    (∀ m m' : Machine, (machine.observe a c m).value.1 = (machine.observe a c m').value.1) ↔
      c.Contained a := by
  constructor
  · intro hsame
    exact (observe_setRegister_congr_iff a c Machine.initial).mp (fun v w => hsame _ _)
  · intro h m m'
    rw [value_observe_reading, value_observe_reading, Case.reading_eq_of_contained h m m']

def alone (a : Arch) (c : Case) : Except Failure Unit :=
  (machine.check a c Machine.initial).value.1

def failsAlone? (a : Arch) (c : Case) : Option Failure := Report.failure? (alone a c)

theorem case_of_failsAlone? {a : Arch} {c : Case} {f : Failure} (h : failsAlone? a c = some f) :
    f.case = c := by
  rw [failsAlone?, alone, value_check_attempt, verdict] at h
  split at h
  · cases h
  · cases h
    rfl

theorem filterMap_failsAlone?_filter (a : Arch) (p : Case → Bool) (cs : List Case) :
    (cs.filter p).filterMap (failsAlone? a) =
      (cs.filterMap (failsAlone? a)).filter (fun f => p f.case) := by
  induction cs with
  | nil => rfl
  | cons c cs ih =>
    cases hf : failsAlone? a c with
    | none => cases hp : p c <;> simp [hp, hf, ih]
    | some f =>
      have hcase := case_of_failsAlone? hf
      cases hp : p c <;> simp [hp, hf, hcase, ih]

theorem filterMap_failsAlone?_copies (a : Arch) (n : Case → Nat) (cs : List Case) :
    (cs.flatMap (fun c => List.replicate (n c) c)).filterMap (failsAlone? a) =
      (cs.filterMap (failsAlone? a)).flatMap (fun f => List.replicate (n f.case) f) := by
  induction cs with
  | nil => rfl
  | cons c cs ih =>
    rw [List.flatMap_cons, List.filterMap_append, List.filterMap_replicate, ih, List.filterMap_cons]
    cases hf : failsAlone? a c with
    | none => rfl
    | some f => rw [List.flatMap_cons, case_of_failsAlone? hf]

section Batch

variable {a : Arch} {cs : List Case}

theorem verdicts_eq_map_alone (h : ∀ c ∈ cs, c.Contained a) (m : Machine) :
    machine.verdicts a cs m = cs.map (alone a) := by
  apply Logged.thread_of_stateless
  intro m c hc
  rw [alone, value_check_reading, value_check_reading,
    Case.reading_eq_of_contained (h c hc) m Machine.initial]

theorem report_eq_alone (h : ∀ c ∈ cs, c.Contained a) (m : Machine) :
    (machine.runBatch a cs m).value.1 =
      ⟨(cs.map (alone a)).countP Except.isOk, (cs.map (alone a)).filterMap Report.failure?⟩ := by
  rw [report_runBatch, verdicts_eq_map_alone h, Report.ofVerdicts_eq]

theorem failures_eq_filterMap_alone (h : ∀ c ∈ cs, c.Contained a) (m : Machine) :
    (machine.runBatch a cs m).value.1.failures = cs.filterMap (failsAlone? a) := by
  rw [report_eq_alone h, List.filterMap_map]
  rfl

theorem failures_filter (h : ∀ c ∈ cs, c.Contained a) (p : Case → Bool) (m m' : Machine) :
    (machine.runBatch a (cs.filter p) m').value.1.failures =
      (machine.runBatch a cs m).value.1.failures.filter (fun f => p f.case) := by
  have hkept : ∀ c ∈ cs.filter p, c.Contained a := fun c hc => h c (List.mem_filter.mp hc).1
  rw [failures_eq_filterMap_alone h, failures_eq_filterMap_alone hkept, filterMap_failsAlone?_filter]

theorem failures_copies (h : ∀ c ∈ cs, c.Contained a) (n : Case → Nat) (m m' : Machine) :
    (machine.runBatch a (cs.flatMap (fun c => List.replicate (n c) c)) m').value.1.failures =
      (machine.runBatch a cs m).value.1.failures.flatMap (fun f => List.replicate (n f.case) f) := by
  have hcopies : ∀ c ∈ cs.flatMap (fun c => List.replicate (n c) c), c.Contained a := by
    intro c hc
    obtain ⟨d, hd, hcopy⟩ := List.mem_flatMap.mp hc
    rw [List.eq_of_mem_replicate hcopy]
    exact h d hd
  rw [failures_eq_filterMap_alone h, failures_eq_filterMap_alone hcopies,
    filterMap_failsAlone?_copies]

theorem report_perm {ds : List Case} (h : ∀ c ∈ cs, c.Contained a) (hperm : ds.Perm cs)
    (m m' : Machine) :
    (machine.runBatch a ds m').value.1.passed = (machine.runBatch a cs m).value.1.passed ∧
      (machine.runBatch a ds m').value.1.failures.Perm (machine.runBatch a cs m).value.1.failures := by
  have hds : ∀ c ∈ ds, c.Contained a := fun c hc => h c (hperm.mem_iff.mp hc)
  rw [failures_eq_filterMap_alone h, failures_eq_filterMap_alone hds, report_eq_alone h,
    report_eq_alone hds]
  exact ⟨(hperm.map _).countP_eq _, hperm.filterMap _⟩

theorem report_append {ds : List Case} (hcs : ∀ c ∈ cs, c.Contained a)
    (hds : ∀ c ∈ ds, c.Contained a) (m m' m'' : Machine) :
    (machine.runBatch a (cs ++ ds) m).value.1 =
      (machine.runBatch a cs m').value.1.append (machine.runBatch a ds m'').value.1 := by
  have hall : ∀ c ∈ cs ++ ds, c.Contained a := by
    intro c hc
    rcases List.mem_append.mp hc with hc | hc
    · exact hcs c hc
    · exact hds c hc
  rw [report_eq_alone hall, report_eq_alone hcs, report_eq_alone hds, List.map_append,
    List.countP_append, List.filterMap_append]
  rfl

end Batch

theorem runBatch_isolated (a : Arch) :
    (∀ c : Case,
      ((∀ m m' : Machine, (machine.observe a c m).value.1 = (machine.observe a c m').value.1) ↔
        c.rd.val < a.registerCount ∨ c.opcode = .swap) ∧
      ∀ m : Machine,
        (∀ v w, (machine.observe a c (m.setRegister c.rd v)).value.1 =
          (machine.observe a c (m.setRegister c.rd w)).value.1) ↔
        c.rd.val < a.registerCount ∨ c.opcode = .swap) ∧
    (∀ ops cs, a.matrix ops = .ok cs → ∀ c ∈ cs, c.rd.val < a.registerCount) ∧
    ∀ cs : List Case, (∀ c ∈ cs, c.rd.val < a.registerCount ∨ c.opcode = .swap) → ∀ m : Machine,
      let report (cs : List Case) (m : Machine) := (machine.runBatch a cs m).value.1
      machine.verdicts a cs m = cs.map (alone a) ∧
      report cs m =
        ⟨(cs.map (alone a)).countP Except.isOk, (cs.map (alone a)).filterMap Report.failure?⟩ ∧
      (∀ p m', (report (cs.filter p) m').failures =
        (report cs m).failures.filter (fun f => p f.case)) ∧
      (∀ ds m', ds.Perm cs → (report ds m').passed = (report cs m).passed ∧
        (report ds m').failures.Perm (report cs m).failures) ∧
      (∀ (n : Case → Nat) m', (report (cs.flatMap (fun c => List.replicate (n c) c)) m').failures =
        (report cs m).failures.flatMap (fun f => List.replicate (n f.case) f)) ∧
      ∀ ds, (∀ c ∈ ds, c.rd.val < a.registerCount ∨ c.opcode = .swap) → ∀ m' m'',
        report (cs ++ ds) m' = (report cs m).append (report ds m'') := by
  refine ⟨fun c => ⟨observe_congr_iff a c, fun m => observe_setRegister_congr_iff a c m⟩,
    fun ops cs hcs c hc => Arch.rd_lt_of_mem_matrix hcs hc, ?_⟩
  intro cs h m report
  exact ⟨verdicts_eq_map_alone h m, report_eq_alone h m,
    fun p m' => failures_filter h p m m', fun ds m' hperm => report_perm h hperm m m',
    fun n m' => failures_copies h n m m', fun ds hds m' m'' => report_append h hds m' m m''⟩

/-- The last case swaps a register beyond the table, and the machine is full of other values. -/
theorem runBatch_isolated_reserved :
    (∀ c ∈ [⟨.neg, 3, 0x80#8⟩, (⟨.swap, 9, 0x12#8⟩ : Case)],
      c.rd.val < reserved.registerCount ∨ c.opcode = .swap) ∧
    machine.verdicts reserved [⟨.neg, 3, 0x80#8⟩, ⟨.swap, 9, 0x12#8⟩]
        ((Machine.initial.setRegister 9 0x5a#8).setStatus 0xff#8) =
      [⟨.neg, 3, 0x80#8⟩, ⟨.swap, 9, 0x12#8⟩].map (alone reserved) :=
  ⟨by decide, ((runBatch_isolated reserved).2.2 _ (by decide) _).1⟩

end Simulator

end AvrConform
