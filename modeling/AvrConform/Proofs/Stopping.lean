import AvrConform.Proofs.Run
set_option autoImplicit false

namespace AvrConform

namespace Machine

theorem exists_holds {m : Machine} {a n : Nat}
    (h : ∀ i < n, Instruction.decode (m.wordAt (a + i)) ≠ none) :
    ∃ is, is.length = n ∧ m.Holds a is := by
  induction n generalizing a with
  | zero => exact ⟨[], rfl, by simp [Holds]⟩
  | succ n ih =>
    obtain ⟨i, hi⟩ := Option.ne_none_iff_exists'.mp (h 0 (by omega))
    have htail : ∀ j < n, Instruction.decode (m.wordAt (a + 1 + j)) ≠ none := by
      intro j hj
      rw [Nat.add_assoc, Nat.add_comm 1]
      exact h (j + 1) (by omega)
    obtain ⟨is, hlength, hrest⟩ := ih htail
    exact ⟨i :: is, by simp [hlength], holds_cons_iff.mpr ⟨hi, hrest⟩⟩

theorem decode_wordAt_ne_none_of_lap {m : Machine} {a : Nat}
    (h : ∀ i < flashWords, Instruction.decode (m.wordAt (a + i)) ≠ none) (i : Nat) :
    Instruction.decode (m.wordAt (a + i)) ≠ none := by
  have hlap := h (i % flashWords) (Nat.mod_lt i (by decide))
  rwa [← wordAt_mod, Nat.add_mod_mod, wordAt_mod] at hlap

/-- `n` calls succeed, the counter moves on by `n` cells and so many instructions are counted. -/
structure Advances (m : Machine) (n : Nat) : Prop where
  answers : (calls call n m).1 = List.replicate n (.ok ())
  pc : (calls call n m).2.pc.toNat = (m.pc.toNat + n) % flashWords
  executed : (calls call n m).2.executed = m.executed + n

theorem Runs.advances {m : Machine} {n : Nat} {is : List Instruction} (h : m.Runs m.pc.toNat n is) :
    m.Advances n :=
  ⟨h.answers, by rw [h.state, toNat_counterAt], by rw [h.state]⟩

theorem advances_of_decode {m : Machine} (hpc : m.pc.toNat < flashWords) {n : Nat}
    (h : ∀ i < n, Instruction.decode (m.wordAt (m.pc.toNat + i)) ≠ none) : m.Advances n := by
  obtain ⟨is, hlength, hholds⟩ := exists_holds h
  exact (hholds.runs (counterAt_toNat hpc).symm hlength).advances

/-- The first cell from here, `k` cells on, whose word is no instruction. -/
structure FirstInvalid (m : Machine) (k : Nat) : Prop where
  lt : k < flashWords
  invalid : Instruction.decode (m.wordAt (m.pc.toNat + k)) = none
  valid : ∀ i < k, Instruction.decode (m.wordAt (m.pc.toNat + i)) ≠ none

theorem flash_call (m : Machine) : m.call.2.flash = m.flash := by
  cases hd : Instruction.decode (m.fetch m.pc) with
  | none => rw [call_eq_error hd]
  | some i => rw [call_eq_ok hd, flash_execute]

theorem flash_calls (m : Machine) (n : Nat) : (calls call n m).2.flash = m.flash := by
  induction n generalizing m with
  | zero => rfl
  | succ n ih => rw [calls, ih, flash_call]

theorem step_machine_eq_error {m : Machine} (h : Instruction.decode (m.fetch m.pc) = none) :
    Simulator.machine.step m = ⟨(.error ⟨m.fetch m.pc, m.pc⟩, m), []⟩ := by
  simp only [Simulator.machine, step_eq_error h, stepEvents, h, List.map_nil]

section Stopped

variable {m : Machine} {k : Nat}

theorem pc_calls_of_firstInvalid (hpc : m.pc.toNat < flashWords) (hk : m.FirstInvalid k) :
    (calls call k m).2.pc = counterAt (m.pc.toNat + k) := by
  apply BitVec.eq_of_toNat_eq
  rw [(advances_of_decode hpc hk.valid).pc, toNat_counterAt]

theorem fetch_calls_of_firstInvalid (hpc : m.pc.toNat < flashWords) (hk : m.FirstInvalid k) :
    (calls call k m).2.fetch (calls call k m).2.pc = m.wordAt (m.pc.toNat + k) := by
  rw [pc_calls_of_firstInvalid hpc hk, fetch_counterAt, wordAt_congr (flash_calls m k)]

theorem step_stopped (hpc : m.pc.toNat < flashWords) (hk : m.FirstInvalid k) :
    Simulator.machine.step (calls call k m).2 =
      ⟨(.error ⟨m.wordAt (m.pc.toNat + k), counterAt (m.pc.toNat + k)⟩, (calls call k m).2), []⟩ := by
  have hfetch := fetch_calls_of_firstInvalid hpc hk
  have hstep := step_machine_eq_error (by rw [hfetch, hk.invalid] : _ = none)
  rwa [hfetch, pc_calls_of_firstInvalid hpc hk] at hstep

theorem calls_of_firstInvalid (hpc : m.pc.toNat < flashWords) (hk : m.FirstInvalid k) {n : Nat}
    (hn : k ≤ n) :
    calls call n m =
      (List.replicate k (.ok ()) ++ List.replicate (n - k)
        (.error ⟨m.wordAt (m.pc.toNat + k), counterAt (m.pc.toNat + k)⟩), (calls call k m).2) := by
  have hstopped : (calls call k m).2.call =
      (.error ⟨m.wordAt (m.pc.toNat + k), counterAt (m.pc.toNat + k)⟩, (calls call k m).2) :=
    congrArg Logged.value (step_stopped hpc hk)
  have hadd : calls call (k + (n - k)) m = _ := calls_add k (n - k) m
  rw [calls_of_fixed hstopped, (advances_of_decode hpc hk.valid).answers] at hadd
  rwa [Nat.add_sub_cancel' hn] at hadd

end Stopped

/-- Machines with one flash at one address, which counted equally many instructions from `c` and `c'` on. -/
def SameTrack (c c' : Nat) (m m' : Machine) : Prop :=
  m'.flash = m.flash ∧ m'.pc = m.pc ∧ ∃ d, m.executed = c + d ∧ m'.executed = c' + d

theorem SameTrack.call {c c' : Nat} {m m' : Machine} (h : SameTrack c c' m m') :
    m.call.1 = m'.call.1 ∧ SameTrack c c' m.call.2 m'.call.2 := by
  obtain ⟨hflash, hpc, d, hd, hd'⟩ := h
  have hfetch := fetch_pc_congr hflash hpc
  cases hdecode : Instruction.decode (m.fetch m.pc) with
  | none =>
    rw [call_eq_error hdecode, call_eq_error (by rw [hfetch, hdecode]), hfetch, hpc]
    exact ⟨rfl, hflash, hpc, d, hd, hd'⟩
  | some i =>
    rw [call_eq_ok hdecode, call_eq_ok (by rw [hfetch, hdecode])]
    refine ⟨rfl, by simp [hflash], by simp [hpc], d + 1, ?_, ?_⟩
    · rw [executed_execute, hd, Nat.add_assoc]
    · rw [executed_execute, hd', Nat.add_assoc]

theorem calls_until_invalid (m : Machine) (hpc : m.pc.toNat < flashWords) :
    (∀ k, m.FirstInvalid k →
      let error : InvalidInstruction :=
        ⟨m.wordAt (m.pc.toNat + k), counterAt (m.pc.toNat + k)⟩
      (∀ n, n ≤ k → m.Advances n) ∧
      ∀ n, k ≤ n →
        let stopped := (calls call n m).2
        stopped = (calls call k m).2 ∧
          (calls call n m).1 =
            List.replicate k (.ok ()) ++ List.replicate (n - k) (.error error) ∧
          Simulator.machine.step stopped = ⟨(.error error, stopped), []⟩) ∧
    ((∀ i < flashWords, Instruction.decode (m.wordAt (m.pc.toNat + i)) ≠ none) →
      ∀ n, m.Advances n) ∧
    (∀ n, (calls call n m).2.flash = m.flash) ∧
    ∀ m' : Machine, m'.flash = m.flash → m'.pc = m.pc → ∀ n,
      (calls call n m').1 = (calls call n m).1 ∧
        (calls call n m').2.pc = (calls call n m).2.pc ∧
        ∃ d, (calls call n m).2.executed = m.executed + d ∧
          (calls call n m').2.executed = m'.executed + d := by
  refine ⟨fun k hk => ⟨fun n hn => ?_, fun n hn => ?_⟩, fun h n => ?_, flash_calls m,
    fun m' hflash hpc' n => ?_⟩
  · exact advances_of_decode hpc (fun i hi => hk.valid i (by omega))
  · simp only [calls_of_firstInvalid hpc hk hn]
    exact ⟨trivial, trivial, step_stopped hpc hk⟩
  · exact advances_of_decode hpc (fun i _ => decode_wordAt_ne_none_of_lap h i)
  · have hstart : SameTrack m.executed m'.executed m m' := ⟨hflash, hpc', 0, rfl, rfl⟩
    obtain ⟨hanswers, -, hpcs, hcounts⟩ := calls_related (fun _ _ h => h.call) n hstart
    exact ⟨hanswers.symm, hpcs, hcounts⟩

theorem wordAt_rotateThenStop :
    rotateThenStop.wordAt 0x3fff = 0x9517#16 ∧ rotateThenStop.wordAt 0x4000 = 0xffff#16 := by
  obtain ⟨hrotate, hstop⟩ := fetch_rotateThenStop
  rw [fetch_eq_wordAt] at hrotate hstop
  rw [← wordAt_mod rotateThenStop 0x4000]
  exact ⟨hrotate, hstop⟩

theorem firstInvalid_rotateThenStop : rotateThenStop.FirstInvalid 1 := by
  have hpc : rotateThenStop.pc.toNat = 0x3fff := by decide
  refine ⟨by decide, ?_, fun i hi => ?_⟩
  · rw [hpc, wordAt_rotateThenStop.2]
    decide
  · obtain rfl : i = 0 := by omega
    rw [hpc, wordAt_rotateThenStop.1]
    decide

theorem calls_until_invalid_rotateThenStop :
    rotateThenStop.pc.toNat < flashWords ∧ rotateThenStop.FirstInvalid 1 ∧
      (calls call 4 rotateThenStop).1 =
        .ok () :: List.replicate 3 (.error ⟨0xffff#16, 0#16⟩) := by
  have hanswers := (((calls_until_invalid rotateThenStop (by decide)).1 1
    firstInvalid_rotateThenStop).2 4 (by decide)).2.1
  have hend : rotateThenStop.pc.toNat + 1 = 0x4000 := by decide
  rw [hend, wordAt_rotateThenStop.2] at hanswers
  exact ⟨by decide, firstInvalid_rotateThenStop, hanswers⟩

end Machine

end AvrConform
