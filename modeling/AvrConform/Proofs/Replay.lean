import AvrConform.Journal.Logged
import AvrConform.Machine.Command
import AvrConform.Proofs.Reading
import AvrConform.Proofs.Reference
set_option autoImplicit false

/-! The journal is complete. Every event is a change of the machine, and a command leaves the machine as its
events change it, one after the other. A step reports the flags it writes only with the status register that
it leaves, and a step that fails reports nothing. So whoever has the first machine and the lines written
since then has the last machine. -/

namespace AvrConform

namespace Machine

/-- What a reader of the journal makes of an event, field by field and without the machine's operations. -/
def Event.apply : Event → Machine → Machine
  | .flashWritten a w, m => { m with flash := m.flash.setIfInBounds (a &&& 0x3fff#16).toNat w }
  | .registerWritten r v, m => { m with gprs := m.gprs.setIfInBounds r.val v }
  | .counterWritten pc, m => { m with pc := pc &&& 0x3fff#16 }
  | .statusWritten s, m => { m with sreg := s }
  | .executing _ _, m => { m with executed := m.executed + 1 }
  | .statusLeft s, m => { m with sreg := s }

theorem Event.apply_flashWritten (a w : Word) (m : Machine) :
    (Event.flashWritten a w).apply m = m.store a w := by
  rw [store, set_eq_setIfInBounds]
  rfl

theorem Event.apply_registerWritten (r : Reg) (v : Byte) (m : Machine) :
    (Event.registerWritten r v).apply m = m.setRegister r v := by
  rw [setRegister, RegisterFile.setReg, set_eq_setIfInBounds]
  rfl

def follow (es : List Event) (m : Machine) : Machine := es.foldl (fun m e => e.apply m) m

def replay (lines : List (List Char)) (m : Machine) : Option Machine :=
  lines.foldlM (fun m line => (Event.ofWire? line).map (fun e => e.apply m)) m

theorem follow_append (es fs : List Event) (m : Machine) : follow (es ++ fs) m = follow fs (follow es m) :=
  List.foldl_append

theorem replay_map_wire (es : List Event) (m : Machine) : replay (es.map Event.wire) m = some (follow es m) := by
  induction es generalizing m with
  | nil => rfl
  | cons e es ih =>
    have hline : (Event.ofWire? e.wire).map (fun e => e.apply m) = some (e.apply m) := by
      rw [Event.ofWire?_wire, Option.map_some]
    rw [replay, List.map_cons, List.foldlM_cons, hline]
    exact ih (e.apply m)

theorem follow_imageEvents (m : Machine) (ws : List Word) (start : Word) :
    follow (imageEvents ws start) m = m.loadImage ws start := by
  induction ws generalizing m start with
  | nil => rfl
  | cons w ws ih =>
    rw [imageEvents, follow, List.foldl_cons, Event.apply_flashWritten]
    exact ih (m.store start w) (start + 1#16)

theorem follow_loadEvents (a : Arch) (f : RegisterFile) (m : Machine) :
    follow (loadEvents a f) m = m.loadRegisters a f := by
  have hregs : follow (a.regs.map (fun r => .registerWritten r (f.reg r))) m =
      a.regs.foldl (fun m r => m.setRegister r (f.reg r)) m := by
    simp only [follow, List.foldl_map, Event.apply_registerWritten]
  rw [loadEvents, follow_append, hregs]
  rfl

/-- The counter and the register are reported as they are written, the flags all at once in the end. -/
theorem follow_stepEvents {m : Machine} {i : Instruction}
    (h : Instruction.decode (m.fetch m.pc) = some i) : follow m.stepEvents m = m.execute i := by
  rw [stepEvents, h]
  cases i with
  | nop => rfl
  | unary op rd =>
    simp only [operateEvents, follow, List.cons_append, List.nil_append, List.foldl_cons, List.foldl_nil,
      Event.apply_registerWritten]
    rfl

theorem run_one_of_ok {m m' : Machine} (h : m.step = .ok m') : (m.run 1).2 = m' := by
  simp only [run, h]

theorem run_one_of_error {m : Machine} {e : InvalidInstruction} (h : m.step = .error e) :
    (m.run 1).2 = m := by
  simp only [run, h]

theorem follow_runEvents (m : Machine) (n : Nat) : follow (m.runEvents n) m = (m.run n).2 := by
  induction n generalizing m with
  | zero => rfl
  | succ n ih =>
    cases hd : Instruction.decode (m.fetch m.pc) with
    | none =>
      rw [runEvents, run, step_eq_error hd]
      rfl
    | some i =>
      rw [runEvents, run, step_eq_ok hd, follow_append, follow_stepEvents hd]
      exact ih (m.execute i)

end Machine

theorem Entry.lines_machine (es : List Machine.Event) :
    (admitted (some .trace) (es.map .machine)).map Prod.snd = es.map Machine.Event.wire := by
  have hadmitted : ∀ l : Level, l.admittedBy (some .trace) = true := by
    intro l
    cases l <;> rfl
  rw [admitted, List.filter_eq_self.mpr (fun e _ => hadmitted e.level), List.map_map, List.map_map]
  rfl

namespace Command

/-- Setting a flag in place and counting an instruction reach below the machine's own operations and are not
reported; everything else is. -/
def isReported : Command → Bool
  | .setFlag _ _ => false
  | .countInstruction => false
  | _ => true

theorem follow_events {c : Command} (h : c.isReported = true) (m : Machine) :
    Machine.follow (c.events m) m = c.apply m := by
  cases c with
  | stage w => exact Machine.Event.apply_flashWritten m.pc w m
  | writeFlash a w => exact Machine.Event.apply_flashWritten a w m
  | writeRegister r v => exact Machine.Event.apply_registerWritten r v m
  | loadImage ws start => exact m.follow_imageEvents ws start
  | step => exact m.follow_runEvents 1
  | run n => exact m.follow_runEvents n
  | loadRegisters a f => exact m.follow_loadEvents a f
  | setFlag f v => cases h
  | countInstruction => cases h
  | _ => rfl

def session (cs : List Command) (m : Machine) : Logged Machine :=
  cs.foldlM (fun m c => ⟨c.apply m, (c.events m).map .machine⟩) m

theorem exists_events_session {cs : List Command} (h : ∀ c ∈ cs, c.isReported = true) (m : Machine) :
    ∃ es : List Machine.Event,
      (session cs m).entries = es.map .machine ∧ Machine.follow es m = (session cs m).value := by
  induction cs generalizing m with
  | nil => exact ⟨[], rfl, rfl⟩
  | cons c cs ih =>
    obtain ⟨es, hentries, hend⟩ := ih (fun d hd => h d (List.mem_cons_of_mem c hd)) (c.apply m)
    have hsession : (session (c :: cs) m).entries =
        (c.events m).map .machine ++ (session cs (c.apply m)).entries := rfl
    refine ⟨c.events m ++ es, ?_, ?_⟩
    · rw [hsession, hentries, List.map_append]
    · rw [Machine.follow_append, follow_events (h c List.mem_cons_self), hend]
      rfl

theorem value_session_append (cs ds : List Command) (m : Machine) :
    (session (cs ++ ds) m).value = (session ds (session cs m).value).value := by
  simp only [session, List.foldlM_append, Logged.value_bind]

theorem session_singleton (c : Command) (m : Machine) :
    session [c] m = ⟨c.apply m, (c.events m).map .machine⟩ := by
  simp [session]

/-- The operations that the bench has from its simulator are sessions of one command, journal included. -/
theorem session_eq_simulator (m : Machine) :
    (∀ r v, session [.writeRegister r v] m = Simulator.machine.setRegister r v m) ∧
    (∀ s, session [.setStatus s] m = Simulator.machine.setStatus s m) ∧
    (∀ pc, session [.setCounter pc] m = Simulator.machine.setCounter pc m) ∧
    (∀ w, session [.stage w] m = Simulator.machine.stage w m) ∧
    session [.step] m = Prod.snd <$> Simulator.machine.step m ∧
    ∀ a f, session [.loadRegisters a f] m = Simulator.machine.loadRegisters a f m := by
  simp only [session_singleton]
  refine ⟨fun _ _ => rfl, fun _ => rfl, fun _ => rfl, fun _ => rfl, ?_, fun a f => ?_⟩
  · cases hd : Instruction.decode (m.fetch m.pc) with
    | none =>
      have hstep := Machine.step_eq_error hd
      have hevents : m.stepEvents = [] := by rw [Machine.stepEvents, hd]
      simp [apply, events, Machine.runEvents, Simulator.machine, Functor.map, hstep, hevents,
        Machine.run_one_of_error hstep]
    | some i =>
      have hstep := Machine.step_eq_ok hd
      simp [apply, events, Machine.runEvents, Simulator.machine, Functor.map, hstep,
        Machine.run_one_of_ok hstep]
  · have hvalue := Simulator.value_machine_loadRegisters a f m
    have hentries := Simulator.entries_machine_loadRegisters a f m
    exact congrArg₂ Logged.mk hvalue.symm hentries.symm

theorem replay_session (cs : List Command) (h : ∀ c ∈ cs, c.isReported = true) (m : Machine) :
    let messages := Entry.admitted (some .trace) (session cs m).entries
    (∀ line e, Machine.Event.ofWire? line = some e ↔ e.wire = line) ∧
      Machine.replay (messages.map Prod.snd) m = some (session cs m).value ∧
      (∀ r v, session [.writeRegister r v] m = Simulator.machine.setRegister r v m) ∧
      (∀ s, session [.setStatus s] m = Simulator.machine.setStatus s m) ∧
      (∀ pc, session [.setCounter pc] m = Simulator.machine.setCounter pc m) ∧
      (∀ w, session [.stage w] m = Simulator.machine.stage w m) ∧
      session [.step] m = Prod.snd <$> Simulator.machine.step m ∧
      ∀ a f, session [.loadRegisters a f] m = Simulator.machine.loadRegisters a f m := by
  intro messages
  obtain ⟨es, hentries, hend⟩ := exists_events_session h m
  have hlines : messages.map Prod.snd = es.map Machine.Event.wire := by
    rw [← Entry.lines_machine, ← hentries]
  refine ⟨fun _ _ => Machine.Event.ofWire?_eq_some_iff, ?_, session_eq_simulator m⟩
  rw [hlines, Machine.replay_map_wire, hend]

/-- A load into three registers, then a rotation in the last cell and a step that fails behind it. The
counter, the address of the image and the counter that is loaded are all behind the flash. -/
theorem replay_session_rotation :
    let staging : List Command :=
      [.loadRegisters { registerCount := 3 } ⟨Vector.replicate 32 0x5a#8, 0x00#8, 0xffff#16⟩,
        .writeRegister 17 0x03#8, .setStatus 0xe1#8, .setCounter 0x7fff#16, .stage 0x9517#16,
        .loadImage [0xffff#16] 0x4000#16]
    let cs := staging ++ [.step, .step]
    let messages := Entry.admitted (some .trace) (session cs .initial).entries
    (∀ c ∈ cs, c.isReported = true) ∧
    ∃ last, Machine.replay (messages.map Prod.snd) .initial = some last ∧
      last.gprs.get 2 = 0x5a#8 ∧ last.gprs.get 3 = 0#8 ∧ last.gprs.get 17 = 0x81#8 ∧ last.sreg = 0xf5#8 ∧
      last.pc = 0#16 ∧ last.flash[0x3fff]? = some 0x9517#16 ∧ last.flash[0]? = some 0xffff#16 ∧
      last.executed = 1 := by
  intro staging cs messages
  have h : ∀ c ∈ cs, c.isReported = true := by simp [cs, staging, isReported]
  obtain ⟨-, hreplay, -⟩ := replay_session cs h .initial
  let m : Machine := (session staging .initial).value
  have hflash : m.flash = Machine.rotateThenStop.flash := rfl
  obtain ⟨hrotate, hcounter, hstop⟩ := Machine.step_rotateThenStop hflash rfl
  have hsteps : ∀ m, (session [.step, .step] m).value = ((m.run 1).2.run 1).2 := fun _ => rfl
  have hend : (session cs .initial).value = m.execute (.unary .ror 17) := by
    rw [value_session_append, hsteps]
    change ((m.run 1).2.run 1).2 = _
    rw [Machine.run_one_of_ok hrotate, Machine.run_one_of_error hstop]
  rw [hend] at hreplay
  refine ⟨h, _, hreplay, by decide, by decide, by decide, by decide, hcounter, ?_, ?_, rfl⟩
  · exact Vector.getElem?_eq_some_iff.mpr ⟨by decide, Machine.fetch_rotateThenStop.1⟩
  · exact Vector.getElem?_eq_some_iff.mpr ⟨by decide, Machine.fetch_rotateThenStop.2⟩

end Command
end AvrConform
