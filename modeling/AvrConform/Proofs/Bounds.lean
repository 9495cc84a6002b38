import AvrConform.Proofs.Image
import AvrConform.Proofs.Replay
import AvrConform.Proofs.RoundTrip
set_option autoImplicit false

/-! No access leaves the flash. `Bare` is the machine over a plain array: nothing is known of its size, and an
access outside it has no result. Commands keep the size, so from a reset on every access has one, and the
bare machine does what the machine does. The counter stays below the size of the flash as well, and counts
of executed instructions are counts of steps that went through. -/

namespace AvrConform

/-- The registers, a flash of any size, and how many instructions were executed. -/
structure Bare extends RegisterFile where
  flash : Array Word
  executed : Nat

namespace Bare

def initial : Bare :=
  { RegisterFile.zero with flash := Array.replicate flashWords 0#16, executed := 0 }

def fetch? (b : Bare) (a : Word) : Option Word := b.flash[(a &&& addressMask).toNat]?

/-- Addresses that agree up to laps of the flash are one address, whatever the size of the array. -/
theorem fetch?_congr {a a' : Word} (h : a.toNat % flashWords = a'.toNat % flashWords) (b : Bare) :
    b.fetch? a = b.fetch? a' := by
  rw [fetch?, fetch?, toNat_and_addressMask, toNat_and_addressMask, h]

def store? (b : Bare) (a w : Word) : Option Bare :=
  let i := (a &&& addressMask).toNat
  if i < b.flash.size then some { b with flash := b.flash.setIfInBounds i w } else none

def loadImage? (ws : List Word) (start : Word) (b : Bare) : Option Bare :=
  match ws with
  | [] => some b
  | w :: rest => do
    let b ← b.store? start w
    loadImage? rest (start + 1#16) b

def step? (b : Bare) : Option (Except InvalidInstruction Unit × Bare) := do
  let word ← b.fetch? b.pc
  match Instruction.decode word with
  | none => some (.error ⟨word, b.pc⟩, b)
  | some i => some (.ok (), { b with
      toRegisterFile := { i.effect b.toRegisterFile with pc := (b.pc + i.size) &&& addressMask }
      executed := b.executed + 1 })

def run? (n : Nat) (b : Bare) : Option (List (Except InvalidInstruction Unit) × Bare) :=
  match n with
  | 0 => some ([], b)
  | n + 1 => do
    let (answer, b) ← b.step?
    match answer with
    | .error e => some ([.error e], b)
    | .ok () =>
      let (answers, b) ← run? n b
      some (.ok () :: answers, b)

end Bare

namespace Command

def onRegisters : Command → RegisterFile → RegisterFile
  | .writeRegister r v, f => f.setReg r v
  | .setCounter w, f => { f with pc := w &&& addressMask }
  | .addCounter w, f => { f with pc := (f.pc + w) &&& addressMask }
  | .setStatus s, f => { f with sreg := s }
  | .toggleStatus b, f => { f with sreg := f.sreg ^^^ b }
  | .setFlag g v, f => { f with sreg := f.sreg.set g v }
  | .loadRegisters a g, f =>
    { a.regs.foldl (fun f r => f.setReg r (g.reg r)) f with sreg := g.sreg, pc := g.pc &&& addressMask }
  | _, f => f

def perform : Command → Bare → Option (List (Except InvalidInstruction Unit) × Bare)
  | .stage w, b => (b.store? b.pc w).map (fun b => ([], b))
  | .loadImage ws start, b => (b.loadImage? ws start).map (fun b => ([], b))
  | .readFlash a, b => (b.fetch? a).map (fun _ => ([], b))
  | .writeFlash a w, b => (b.store? a w).map (fun b => ([], b))
  | .step, b => b.run? 1
  | .run n, b => b.run? n
  | .countInstruction, b => some ([], { b with executed := b.executed + 1 })
  | c, b => some ([], { b with toRegisterFile := c.onRegisters b.toRegisterFile })

def performAll : List Command → Bare → Option (List (Except InvalidInstruction Unit) × Bare)
  | [], b => some ([], b)
  | c :: cs, b => do
    let (answers, b) ← c.perform b
    let (rest, b) ← performAll cs b
    some (answers ++ rest, b)

end Command

namespace Machine

def bare (m : Machine) : Bare := { m with flash := m.flash.toArray }

theorem bare_initial : initial.bare = Bare.initial := by
  simp only [bare, initial, Bare.initial, Vector.toArray_replicate]

@[simp] theorem pc_bare (m : Machine) : m.bare.pc = m.pc := rfl

theorem size_flash_bare (m : Machine) : m.bare.flash.size = flashWords := m.flash.size_toArray

theorem and_addressMask_lt_size (m : Machine) (a : Word) : (a &&& addressMask).toNat < m.bare.flash.size := by
  rw [size_flash_bare]
  exact and_addressMask_lt a

@[simp] theorem fetch?_bare (m : Machine) (a : Word) : m.bare.fetch? a = some (m.fetch a) := by
  rw [Bare.fetch?, Array.getElem?_eq_getElem (m.and_addressMask_lt_size a)]
  rfl

@[simp] theorem store?_bare (m : Machine) (a w : Word) : m.bare.store? a w = some (m.store a w).bare := by
  have h := m.and_addressMask_lt_size a
  rw [Bare.store?, if_pos h, Array.setIfInBounds_def, dif_pos h]
  rfl

@[simp] theorem loadImage?_bare (ws : List Word) (start : Word) (m : Machine) :
    m.bare.loadImage? ws start = some (m.loadImage ws start).bare := by
  induction ws generalizing start m with
  | nil => rfl
  | cons w ws ih => simp [Bare.loadImage?, loadImage, ih]

@[simp] theorem step?_bare (m : Machine) : m.bare.step? = some (m.call.1, m.call.2.bare) := by
  cases hd : Instruction.decode (m.fetch m.pc) with
  | none => simp [Bare.step?, call_eq_error hd, hd]
  | some i =>
    simp only [Bare.step?, call_eq_ok hd, execute_eq_effect, pc_bare, fetch?_bare, Option.bind_eq_bind,
      Option.bind_some, hd]
    cases i <;> rfl

theorem bounds_of_step_eq_ok {m m' : Machine} (h : m.step = .ok m') :
    m'.executed = m.executed + 1 ∧ m'.pc.toNat < flashWords := by
  cases hd : Instruction.decode (m.fetch m.pc) with
  | none =>
    rw [step_eq_error hd] at h
    cases h
  | some i =>
    rw [step_eq_ok hd] at h
    cases h
    refine ⟨executed_execute m i, ?_⟩
    rw [pc_execute]
    exact and_addressMask_lt (m.pc + 1#16)

def runAnswers (n : Nat) (m : Machine) : List (Except InvalidInstruction Unit) :=
  match n with
  | 0 => []
  | n + 1 =>
    match m.step with
    | .error e => [.error e]
    | .ok m' => .ok () :: m'.runAnswers n

@[simp] theorem run?_bare (n : Nat) (m : Machine) :
    m.bare.run? n = some (m.runAnswers n, (m.run n).2.bare) := by
  induction n generalizing m with
  | zero => rfl
  | succ n ih =>
    cases h : m.step with
    | error e => simp [Bare.run?, runAnswers, run, h, call_of_step_eq_error h]
    | ok m' => simp [Bare.run?, runAnswers, run, h, call_of_step_eq_ok h, ih]

theorem executed_run (n : Nat) (m : Machine) :
    (m.run n).2.executed = m.executed + (m.runAnswers n).countP Except.isOk := by
  induction n generalizing m with
  | zero => rfl
  | succ n ih =>
    cases h : m.step with
    | error e => simp [runAnswers, run, h, Except.toBool]
    | ok m' =>
      obtain ⟨hcounted, -⟩ := bounds_of_step_eq_ok h
      simp only [runAnswers, run, h]
      rw [ih, hcounted, List.countP_cons_of_pos rfl]
      omega

theorem run_pc_lt (n : Nat) {m : Machine} (hpc : m.pc.toNat < flashWords) :
    (m.run n).2.pc.toNat < flashWords := by
  induction n generalizing m with
  | zero => exact hpc
  | succ n ih =>
    cases h : m.step with
    | error e => simpa only [run, h] using hpc
    | ok m' =>
      obtain ⟨-, hnext⟩ := bounds_of_step_eq_ok h
      simpa only [run, h] using ih hnext

end Machine

namespace Command

def answers : Command → Machine → List (Except InvalidInstruction Unit)
  | .step, m => m.runAnswers 1
  | .run n, m => m.runAnswers n
  | _, _ => []

def sessionAnswers : List Command → Machine → List (Except InvalidInstruction Unit)
  | [], _ => []
  | c :: cs, m => c.answers m ++ sessionAnswers cs (c.apply m)

theorem perform_bare (c : Command) (m : Machine) :
    c.perform m.bare = some (c.answers m, (c.apply m).bare) := by
  cases c with
  | stage w => simp [perform, apply, answers, Machine.stage]
  | loadImage ws start => simp [perform, apply, answers]
  | readFlash a => simp [perform, apply, answers]
  | writeFlash a w => simp [perform, apply, answers]
  | step => exact m.run?_bare 1
  | run n => exact m.run?_bare n
  | loadRegisters a f =>
    rw [apply, Machine.loadRegisters_eq]
    rfl
  | _ => rfl

theorem apply_pc_lt (c : Command) {m : Machine} (h : m.pc.toNat < flashWords) :
    (c.apply m).pc.toNat < flashWords := by
  cases c with
  | setCounter w => exact m.setCounter_pc_lt w
  | addCounter w => exact m.setCounter_pc_lt (m.pc + w)
  | loadImage ws start =>
    rw [apply, m.toRegisterFile_loadImage ws start]
    exact h
  | step => exact Machine.run_pc_lt 1 h
  | run n => exact Machine.run_pc_lt n h
  | loadRegisters a f => exact and_addressMask_lt f.pc
  | _ => exact h

theorem executed_apply {c : Command} (h : c ≠ .countInstruction) (m : Machine) :
    (c.apply m).executed = m.executed + (c.answers m).countP Except.isOk := by
  cases c with
  | loadImage ws start => exact m.executed_loadImage ws start
  | step => exact m.executed_run 1
  | run n => exact m.executed_run n
  | loadRegisters a f => exact m.executed_loadRegisters a f
  | countInstruction => exact absurd rfl h
  | _ => rfl

theorem value_session_cons (c : Command) (cs : List Command) (m : Machine) :
    (session (c :: cs) m).value = (session cs (c.apply m)).value := rfl

theorem performAll_bare (cs : List Command) (m : Machine) :
    performAll cs m.bare = some (sessionAnswers cs m, (session cs m).value.bare) := by
  induction cs generalizing m with
  | nil => rfl
  | cons c cs ih => simp [performAll, sessionAnswers, perform_bare, ih, value_session_cons]

theorem session_pc_lt (cs : List Command) {m : Machine} (h : m.pc.toNat < flashWords) :
    (session cs m).value.pc.toNat < flashWords := by
  induction cs generalizing m with
  | nil => exact h
  | cons c cs ih => exact ih (apply_pc_lt c h)

theorem executed_session {cs : List Command} (h : ∀ c ∈ cs, c ≠ .countInstruction) (m : Machine) :
    (session cs m).value.executed = m.executed + (sessionAnswers cs m).countP Except.isOk := by
  induction cs generalizing m with
  | nil => rfl
  | cons c cs ih =>
    have hfirst := executed_apply (h c List.mem_cons_self) m
    have hrest := ih (fun d hd => h d (List.mem_cons_of_mem c hd)) (c.apply m)
    rw [value_session_cons, sessionAnswers, List.countP_append]
    omega

theorem session_inBounds (cs : List Command) (h : ∀ c ∈ cs, c ≠ .countInstruction) :
    ∃ b, performAll cs .initial = some (sessionAnswers cs .initial, b) ∧
      b = (session cs .initial).value.bare ∧
      b.flash.size = 0x4000 ∧
      b.pc.toNat < 0x4000 ∧
      b.executed = (sessionAnswers cs .initial).countP Except.isOk ∧
      (∀ a, (b.fetch? a).isSome) ∧
      ∀ a a' : Word, a.toNat % 0x4000 = a'.toNat % 0x4000 → b.fetch? a = b.fetch? a' := by
  have hbare := performAll_bare cs .initial
  rw [Machine.bare_initial] at hbare
  refine ⟨_, hbare, rfl, Machine.size_flash_bare _, session_pc_lt cs (by decide), ?_, fun a => ?_,
    fun a a' haa' => Bare.fetch?_congr haa' _⟩
  · exact (executed_session h .initial).trans (Nat.zero_add _)
  · rw [Machine.fetch?_bare]
    rfl

/-- A step that fails between two that go through, on addresses and counters that all lie behind the flash;
the counter is left at the last cell. -/
theorem session_inBounds_wrapped :
    let cs : List Command := [.writeFlash 0x4001#16 0xffff#16, .setCounter 0xc000#16, .step, .step,
      .addCounter 0xffff#16, .step, .loadImage [0x9403#16, 0x9503#16] 0xffff#16, .addCounter 0xfffe#16]
    (∀ c ∈ cs, c ≠ .countInstruction) ∧
      sessionAnswers cs .initial = [.ok (), .error ⟨0xffff#16, 0x0001#16⟩, .ok ()] ∧
      ∃ b, performAll cs .initial = some (sessionAnswers cs .initial, b) ∧ b.executed = 2 ∧
        b.fetch? 0x7fff#16 = b.fetch? 0xffff#16 := by
  intro cs
  have h : ∀ c ∈ cs, c ≠ .countInstruction := by simp [cs]
  have hanswers : sessionAnswers cs .initial = [.ok (), .error ⟨0xffff#16, 0x0001#16⟩, .ok ()] := rfl
  obtain ⟨b, hb, -, -, -, hexecuted, -, hfetch⟩ := session_inBounds cs h
  rw [hanswers] at hexecuted
  exact ⟨h, hanswers, b, hb, hexecuted, hfetch _ _ (by decide)⟩

end Command

end AvrConform
