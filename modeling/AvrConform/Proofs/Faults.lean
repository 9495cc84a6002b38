import AvrConform.Proofs.Judgement
import AvrConform.Proofs.Trial
import AvrConform.Simulator.Faulty
set_option autoImplicit false

namespace AvrConform

namespace FaultPlan

variable (p : FaultPlan)

theorem value_step (st : Faulty) :
    (p.step st).value =
      match p.refuse st.stepped with
      | some message => (.error (.refused message), { st with stepped := st.stepped + 1 })
      | none =>
        match st.machine.call with
        | (.error e, m) => (.error (.invalid e), { st with machine := m, stepped := st.stepped + 1 })
        | (.ok (), m) =>
          (.ok (), { st with
            machine := (p.disturb st.stepped m).value, stepped := st.stepped + 1 }) := by
  cases h : p.refuse st.stepped with
  | some message => simp only [step, h, Logged.value_pure]
  | none =>
    simp only [step, h, Logged.value_bind, Machine.call]
    rcases (Simulator.machine.step st.machine).value with ⟨e | u, m⟩
    · rfl
    · rfl

theorem value_loadRegisters (a : Arch) (f : RegisterFile) (st : Faulty) :
    (p.simulator.loadRegisters a f st).value =
      { st with machine := st.machine.loadRegisters a f } := by
  have hregs : ∀ (rs : List Reg) (st : Faulty),
      rs.foldl (fun st r => (p.simulator.setRegister r (f.reg r) st).value) st =
        { st with machine := rs.foldl (fun m r => m.setRegister r (f.reg r)) st.machine } := by
    intro rs
    induction rs with
    | nil => exact fun _ => rfl
    | cons r rs ih => exact fun st => ih _
  simp only [Simulator.loadRegisters, Logged.value_bind, Logged.value_foldlM, hregs]
  rfl

theorem value_observe (a : Arch) (c : Case) (st : Faulty) :
    (p.simulator.observe a c st).value =
      match p.refuse st.stepped, Instruction.decode (p.substitute st.staged c.word) with
      | some message, _ =>
        (.error ⟨c, c.word, .decode message⟩,
          ⟨st.machine.prepare a c (p.substitute st.staged c.word), st.staged + 1, st.stepped + 1⟩)
      | none, none =>
        (.error ⟨c, c.word, .decode
            (String.ofList (InvalidInstruction.wire ⟨p.substitute st.staged c.word, startPc⟩))⟩,
          ⟨st.machine.prepare a c (p.substitute st.staged c.word), st.staged + 1, st.stepped + 1⟩)
      | none, some i =>
        let m := (p.disturb st.stepped
          ((st.machine.prepare a c (p.substitute st.staged c.word)).execute i)).value
        (.ok (m.readRegisters a), ⟨m, st.staged + 1, st.stepped + 1⟩) := by
  have hprepare : (p.simulator.stage c.word
      (p.simulator.loadRegisters a (c.preset a) st).value).value =
        ⟨st.machine.prepare a c (p.substitute st.staged c.word), st.staged + 1, st.stepped⟩ := by
    rw [value_loadRegisters]
    rfl
  have hstep := p.value_step
    ⟨st.machine.prepare a c (p.substitute st.staged c.word), st.staged + 1, st.stepped⟩
  have hsimulator : p.simulator.step = p.step := rfl
  rw [Simulator.value_observe, hprepare, hsimulator, hstep, Machine.call_prepare]
  cases hr : p.refuse st.stepped with
  | some message => rfl
  | none =>
    cases hd : Instruction.decode (p.substitute st.staged c.word) with
    | none => rfl
    | some i => rfl

theorem counters_check (a : Arch) (c : Case) (st : Faulty) :
    (p.simulator.check a c st).value.2.staged = st.staged + 1 ∧
      (p.simulator.check a c st).value.2.stepped = st.stepped + 1 := by
  rw [Simulator.value_check, value_observe]
  cases p.refuse st.stepped with
  | some message => exact ⟨rfl, rfl⟩
  | none =>
    cases Instruction.decode (p.substitute st.staged c.word) with
    | none => exact ⟨rfl, rfl⟩
    | some i => exact ⟨rfl, rfl⟩

/-- A plan with one fault for each place: what is stored instead of the word, whether the step is refused,
and what becomes of the registers after a step that went through, written back with the setters. -/
def ofPlaces (f : Nat → Word → Word) (refuse : Nat → Option String)
    (g : Nat → RegisterFile → RegisterFile) : FaultPlan where
  substitute := f
  refuse := refuse
  disturb k m := Simulator.machine.loadRegisters Arch.avr (g k m.toRegisterFile) m

/-- The registers that a case shows when `i` was stored for its word and `g` came after the step. -/
def shown (g : RegisterFile → RegisterFile) (c : Case) (i : Instruction) : RegisterFile :=
  let after := g { i.effect (c.preset Arch.avr) with pc := 0x0101#16 }
  { after with pc := after.pc &&& 0x3fff#16 }

theorem readRegisters_disturbed (g : RegisterFile → RegisterFile) (c : Case) (w : Word)
    (i : Instruction) (m : Machine) :
    let stepped := (m.prepare Arch.avr c w).execute i
    (Simulator.machine.loadRegisters Arch.avr (g stepped.toRegisterFile) stepped).value.readRegisters
      Arch.avr = shown g c i := by
  intro stepped
  have hstepped : stepped.toRegisterFile = { i.effect (c.preset Arch.avr) with pc := 0x0101#16 } :=
    Machine.toRegisterFile_execute_prepare c w i m
  rw [Machine.readRegisters_avr, Simulator.value_machine_loadRegisters, Machine.loadRegisters_avr,
    hstepped]
  rfl

theorem wire_invalid_startPc (w : Word) :
    InvalidInstruction.wire ⟨w, startPc⟩ =
      "invalid instruction ".toList ++ w.wire ++ " at pc 0x0100".toList := by
  have hpc : " at pc ".toList ++ startPc.wire = " at pc 0x0100".toList := by cbv
  calc
    _ = "invalid instruction ".toList ++ w.wire ++ (" at pc ".toList ++ startPc.wire) :=
      List.append_assoc _ _ _
    _ = _ := by rw [hpc]

def verdictAt (f : Nat → Word → Word) (refuse : Nat → Option String)
    (g : Nat → RegisterFile → RegisterFile) (k : Nat) (c : Case) : Except Failure Unit :=
  match refuse k with
  | some message => .error ⟨c, c.word, .decode message⟩
  | none =>
    match Instruction.decode (f k c.word) with
    | none =>
      .error ⟨c, c.word, .decode (String.ofList
        ("invalid instruction ".toList ++ (f k c.word).wire ++ " at pc 0x0100".toList))⟩
    | some i =>
      let actual := shown (g k) c i
      let expected := c.expected Arch.avr (c.preset Arch.avr)
      if actual = expected then .ok ()
      else .error ⟨c, c.word, .assertion
        ((RegId.all.filter (fun r => actual.get r ≠ expected.get r)).map
          (c.divergenceAt Arch.avr actual))⟩

section Places

variable (f : Nat → Word → Word) (refuse : Nat → Option String)
  (g : Nat → RegisterFile → RegisterFile)

theorem check_ofPlaces {k : Nat} {st : Faulty} (hstaged : st.staged = k) (hstepped : st.stepped = k)
    (c : Case) :
    ((ofPlaces f refuse g).simulator.check Arch.avr c st).value.1 = verdictAt f refuse g k c := by
  subst hstepped
  rw [Simulator.value_check, value_observe, hstaged, verdictAt]
  simp only [ofPlaces]
  cases refuse st.stepped with
  | some message => rfl
  | none =>
    cases Instruction.decode (f st.stepped c.word) with
    | none =>
      simp only [wire_invalid_startPc]
      rfl
    | some i =>
      simp only [readRegisters_disturbed]
      exact Case.judge_avr c (shown (g st.stepped) c i)

theorem runBatch_ofPlaces (cs : List Case) (m : Machine) :
    let simulator := (ofPlaces f refuse g).simulator
    simulator.verdicts Arch.avr cs ⟨m, 0, 0⟩ = cs.mapIdx (verdictAt f refuse g) ∧
      (simulator.runBatch Arch.avr cs ⟨m, 0, 0⟩).value.1 =
        ⟨(cs.mapIdx (verdictAt f refuse g)).countP Except.isOk,
          (cs.mapIdx (verdictAt f refuse g)).filterMap Report.failure?⟩ ∧
      (simulator.runBatch Arch.avr cs ⟨m, 0, 0⟩).value.2.staged = cs.length ∧
      (simulator.runBatch Arch.avr cs ⟨m, 0, 0⟩).value.2.stepped = cs.length := by
  have hstep : ∀ k st, ∀ c ∈ cs, (st.staged = k ∧ st.stepped = k) →
      ((ofPlaces f refuse g).simulator.check Arch.avr c st).value.1 = verdictAt f refuse g k c ∧
        ((ofPlaces f refuse g).simulator.check Arch.avr c st).value.2.staged = k + 1 ∧
        ((ofPlaces f refuse g).simulator.check Arch.avr c st).value.2.stepped = k + 1 := by
    intro k st c _ ⟨hstaged, hstepped⟩
    have hcounters := counters_check (ofPlaces f refuse g) Arch.avr c st
    rw [hstaged, hstepped] at hcounters
    exact ⟨check_ofPlaces f refuse g hstaged hstepped c, hcounters⟩
  obtain ⟨hverdicts, hstaged, hstepped⟩ :=
    Logged.thread_of_invariant (fun k (st : Faulty) => st.staged = k ∧ st.stepped = k)
      (verdictAt f refuse g) hstep 0 ⟨m, 0, 0⟩ ⟨rfl, rfl⟩
  simp only [Nat.zero_add] at hverdicts hstaged hstepped
  intro simulator
  have hlist : simulator.verdicts Arch.avr cs ⟨m, 0, 0⟩ = cs.mapIdx (verdictAt f refuse g) := hverdicts
  rw [Simulator.report_runBatch, Simulator.state_runBatch, hlist, Report.ofVerdicts_eq]
  exact ⟨rfl, rfl, hstaged, hstepped⟩

end Places

end FaultPlan

end AvrConform
