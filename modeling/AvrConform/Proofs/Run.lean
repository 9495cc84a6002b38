import AvrConform.Machine.Event
import AvrConform.Proofs.Reference
set_option autoImplicit false

/-! Runs over a stretch of flash. The counter moves from cell to cell whatever the instructions are, so
where the flash holds instructions from the counter on, `Machine.Holds`, that many calls execute exactly
these; at the first word that is none, calls stop the machine for good. -/

namespace AvrConform

section Calls

variable {σ ε : Type} {call : σ → Except ε Unit × σ}

theorem calls_add (n k : Nat) (st : σ) :
    calls call (n + k) st =
      ((calls call n st).1 ++ (calls call k (calls call n st).2).1,
        (calls call k (calls call n st).2).2) := by
  induction n generalizing st with
  | zero => simp [calls]
  | succ n ih => simp [Nat.succ_add, calls, ih]

/-- A call that leaves the state as it was is answered the same way for ever. -/
theorem calls_of_fixed {st : σ} {answer : Except ε Unit} (h : call st = (answer, st)) (n : Nat) :
    calls call n st = (List.replicate n answer, st) := by
  induction n with
  | zero => rfl
  | succ n ih => simp [calls, h, ih, List.replicate_succ]

theorem calls_related {R : σ → σ → Prop}
    (hstep : ∀ st st', R st st' → (call st).1 = (call st').1 ∧ R (call st).2 (call st').2)
    (n : Nat) {st st' : σ} (h : R st st') :
    (calls call n st).1 = (calls call n st').1 ∧ R (calls call n st).2 (calls call n st').2 := by
  induction n generalizing st st' with
  | zero => exact ⟨rfl, h⟩
  | succ n ih =>
    obtain ⟨hanswer, hnext⟩ := hstep st st' h
    obtain ⟨hanswers, hend⟩ := ih hnext
    exact ⟨by simp only [calls, hanswer, hanswers], hend⟩

end Calls

/-- The counter on its way through the flash, from the last cell to the first. -/
def counterAt (a : Nat) : Word := BitVec.ofNat 16 (a % flashWords)

theorem toNat_counterAt (a : Nat) : (counterAt a).toNat = a % flashWords := by
  simp only [counterAt, flashWords, BitVec.toNat_ofNat]
  omega

theorem counterAt_toNat {pc : Word} (h : pc.toNat < flashWords) : counterAt pc.toNat = pc := by
  rw [counterAt, Nat.mod_eq_of_lt h, BitVec.ofNat_toNat, BitVec.setWidth_eq]

theorem and_addressMask_eq_counterAt (a : Word) : a &&& addressMask = counterAt a.toNat := by
  apply BitVec.eq_of_toNat_eq
  rw [toNat_and_addressMask, toNat_counterAt]

theorem nextPc_counterAt (a : Nat) : Arch.avr.nextPc (counterAt a) = counterAt (a + 1) := by
  have hnext : Arch.avr.nextPc (counterAt a) = (counterAt a + 1#16) &&& addressMask := rfl
  apply BitVec.eq_of_toNat_eq
  rw [hnext, toNat_and_addressMask, BitVec.toNat_add, toNat_counterAt, toNat_counterAt]
  simp only [flashWords, BitVec.toNat_ofNat]
  omega

namespace Instruction

/-- An instruction neither reads nor moves the counter by itself. -/
theorem effect_with_pc (f : RegisterFile) (pc : Word) (i : Instruction) :
    i.effect { f with pc := pc } = { i.effect f with pc := pc } := by
  cases i <;> rfl

theorem foldl_effect_with_pc (is : List Instruction) (f : RegisterFile) (pc : Word) :
    is.foldl effect { f with pc := pc } = { is.foldl effect f with pc := pc } := by
  induction is generalizing f with
  | nil => rfl
  | cons i is ih => rw [List.foldl_cons, List.foldl_cons, effect_with_pc, ih]

end Instruction

namespace Machine

def wordAt (m : Machine) (a : Nat) : Word :=
  m.flash.get ⟨a % flashWords, Nat.mod_lt a (by decide)⟩

theorem fetch_eq_wordAt (m : Machine) (a : Word) : m.fetch a = m.wordAt a.toNat := by
  simp only [fetch, wordAt, val_cell]
  rfl

theorem wordAt_mod (m : Machine) (a : Nat) : m.wordAt (a % flashWords) = m.wordAt a := by
  simp only [wordAt, Nat.mod_mod]

theorem fetch_counterAt (m : Machine) (a : Nat) : m.fetch (counterAt a) = m.wordAt a := by
  rw [fetch_eq_wordAt, toNat_counterAt, wordAt_mod]

theorem wordAt_congr {m m' : Machine} (h : m.flash = m'.flash) (a : Nat) : m.wordAt a = m'.wordAt a := by
  rw [wordAt, wordAt, h]

theorem fetch_pc_congr {m m' : Machine} (hflash : m'.flash = m.flash) (hpc : m'.pc = m.pc) :
    m'.fetch m'.pc = m.fetch m.pc := by
  rw [hpc, fetch_eq_wordAt, fetch_eq_wordAt, wordAt_congr hflash]

theorem wordAt_store (m : Machine) (a w : Word) (b : Nat) :
    (m.store a w).wordAt b = if b % flashWords = a.toNat % flashWords then w else m.wordAt b := by
  rw [← fetch_counterAt, fetch_store, fetch_counterAt]
  simp only [Fin.ext_iff, val_cell, toNat_counterAt, Nat.mod_mod]

@[simp] theorem flash_execute (m : Machine) (i : Instruction) : (m.execute i).flash = m.flash := by
  rw [execute_eq_effect]

@[simp] theorem executed_execute (m : Machine) (i : Instruction) :
    (m.execute i).executed = m.executed + 1 := by
  rw [execute_eq_effect]

/-- From `a` on the flash holds the instructions, one in each cell. -/
def Holds (m : Machine) (a : Nat) (is : List Instruction) : Prop :=
  ∀ k i, is[k]? = some i → Instruction.decode (m.wordAt (a + k)) = some i

theorem holds_cons_iff {m : Machine} {a : Nat} {i : Instruction} {is : List Instruction} :
    m.Holds a (i :: is) ↔ Instruction.decode (m.wordAt a) = some i ∧ m.Holds (a + 1) is := by
  constructor
  · intro h
    exact ⟨h 0 i rfl, fun k j hj => by simpa [Nat.add_assoc, Nat.add_comm 1] using h (k + 1) j hj⟩
  · rintro ⟨hfirst, hrest⟩ k j hj
    cases k with
    | zero => simpa using hj ▸ hfirst
    | succ k => simpa [Nat.add_assoc, Nat.add_comm 1] using hrest k j hj

theorem Holds.congr {m m' : Machine} {a : Nat} {is : List Instruction} (h : m.Holds a is)
    (hflash : m'.flash = m.flash) : m'.Holds a is := by
  intro k i hi
  rw [wordAt_congr hflash]
  exact h k i hi

theorem Holds.take {m : Machine} {a : Nat} {is : List Instruction} (h : m.Holds a is) (n : Nat) :
    m.Holds a (is.take n) := by
  intro k i hi
  rw [List.getElem?_take] at hi
  split at hi
  · exact h k i hi
  · cases hi

theorem Holds.append {m : Machine} {a : Nat} {is js : List Instruction} (his : m.Holds a is)
    (hjs : m.Holds (a + is.length) js) : m.Holds a (is ++ js) := by
  intro k i hi
  rcases Nat.lt_or_ge k is.length with hk | hk
  · rw [List.getElem?_append_left hk] at hi
    exact his k i hi
  · rw [List.getElem?_append_right hk] at hi
    have hword := hjs (k - is.length) i hi
    rwa [Nat.add_assoc, Nat.add_sub_cancel' hk] at hword

def Event.execution? : Event → Option (Word × Instruction)
  | .executing pc i => some (pc, i)
  | _ => none

def executions (n : Nat) (m : Machine) : List (Word × Instruction) :=
  (m.runEvents n).filterMap Event.execution?

theorem executions_stepEvents {m : Machine} {i : Instruction}
    (h : Instruction.decode (m.fetch m.pc) = some i) :
    m.stepEvents.filterMap Event.execution? = [(m.pc, i)] := by
  rw [stepEvents, h]
  cases i <;> rfl

theorem executions_succ {m : Machine} {i : Instruction}
    (h : Instruction.decode (m.fetch m.pc) = some i) (n : Nat) :
    m.executions (n + 1) = (m.pc, i) :: (m.execute i).executions n := by
  rw [executions, runEvents, step_eq_ok h]
  simp [executions_stepEvents h, executions]

/-- `n` calls, with the counter at `a`, succeed and execute `is`: the registers and flags are as the
manual's effects leave them one after the other, and the flash is left alone. -/
structure Runs (m : Machine) (a n : Nat) (is : List Instruction) : Prop where
  length : is.length = n
  answers : (calls call n m).1 = List.replicate n (.ok ())
  executions : m.executions n = is.mapIdx (fun k i => (counterAt (a + k), i))
  state : (calls call n m).2 = { m with
    toRegisterFile := { is.foldl Instruction.effect m.toRegisterFile with pc := counterAt (a + n) }
    executed := m.executed + n }

theorem Holds.runs {m : Machine} {a n : Nat} {is : List Instruction} (h : m.Holds a is)
    (hpc : m.pc = counterAt a) (hn : is.length = n) : m.Runs a n is := by
  subst hn
  induction is generalizing m a with
  | nil =>
    exact ⟨rfl, rfl, rfl, by simp [calls, ← hpc]⟩
  | cons i is ih =>
    obtain ⟨hfirst, hrest⟩ := holds_cons_iff.mp h
    have hdecode : Instruction.decode (m.fetch m.pc) = some i := by
      rw [hpc, fetch_counterAt, hfirst]
    have hnext : (m.execute i).pc = counterAt (a + 1) := by
      rw [pc_execute, hpc, nextPc_counterAt]
    obtain ⟨-, hanswers, hexecutions, hstate⟩ := ih (hrest.congr (flash_execute m i)) hnext
    have hcalls : calls call (is.length + 1) m =
        (.ok () :: (calls call is.length (m.execute i)).1, (calls call is.length (m.execute i)).2) :=
      calls_succ (call_eq_ok hdecode) is.length
    have hshift : ∀ k, a + 1 + k = a + (k + 1) := by omega
    refine ⟨rfl, ?_, ?_, ?_⟩
    · rw [List.length_cons, hcalls, hanswers, List.replicate_succ]
    · rw [List.length_cons, executions_succ hdecode, hexecutions, hpc, List.mapIdx_cons]
      simp only [hshift, Nat.add_zero]
    · rw [List.length_cons, hcalls, hstate, toRegisterFile_execute, Instruction.foldl_effect_with_pc, hshift]
      simp [execute_eq_effect, Nat.add_assoc, Nat.add_comm 1]

theorem Runs.reg {m : Machine} {a n : Nat} {is : List Instruction} (h : m.Runs a n is) (r : Reg) :
    (calls call n m).2.reg r = (is.foldl Instruction.effect m.toRegisterFile).reg r := by
  rw [h.state]
  rfl

theorem Runs.sreg {m : Machine} {a n : Nat} {is : List Instruction} (h : m.Runs a n is) :
    (calls call n m).2.sreg = (is.foldl Instruction.effect m.toRegisterFile).sreg := by
  rw [h.state]

end Machine

end AvrConform
