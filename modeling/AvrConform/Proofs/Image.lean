import AvrConform.Proofs.Run
set_option autoImplicit false

namespace AvrConform

namespace Machine

theorem toNat_add_one_add_mod (start : Word) (i : Nat) :
    ((start + 1#16).toNat + i) % flashWords = (start.toNat + (i + 1)) % flashWords := by
  simp only [flashWords, BitVec.toNat_add, BitVec.toNat_ofNat]
  omega

theorem toRegisterFile_loadImage (m : Machine) (ws : List Word) (start : Word) :
    (m.loadImage ws start).toRegisterFile = m.toRegisterFile := by
  induction ws generalizing m start with
  | nil => rfl
  | cons w ws ih => exact ih (m.store start w) (start + 1#16)

theorem executed_loadImage (m : Machine) (ws : List Word) (start : Word) :
    (m.loadImage ws start).executed = m.executed := by
  induction ws generalizing m start with
  | nil => rfl
  | cons w ws ih => exact ih (m.store start w) (start + 1#16)

theorem loadImage_append (m : Machine) (ws vs : List Word) (start : Word) :
    m.loadImage (ws ++ vs) start =
      (m.loadImage ws start).loadImage vs (start + BitVec.ofNat 16 ws.length) := by
  induction ws generalizing m start with
  | nil => simp [loadImage]
  | cons w ws ih =>
    have hend : start + BitVec.ofNat 16 (ws.length + 1) =
        start + 1#16 + BitVec.ofNat 16 ws.length := by
      rw [BitVec.ofNat_add, BitVec.add_comm (BitVec.ofNat 16 ws.length), BitVec.add_assoc]
    rw [List.cons_append, loadImage, ih, loadImage, List.length_cons, hend]

/-- Of the places of an image that fall into the cell of `b`, `i` is the last one. -/
structure LastWrite (start : Word) (length b i : Nat) : Prop where
  lt : i < length
  hits : (start.toNat + i) % flashWords = b % flashWords
  last : ∀ j, i < j → j < length → (start.toNat + j) % flashWords ≠ b % flashWords

theorem LastWrite.tail {start : Word} {length b i : Nat} (h : LastWrite start (length + 1) b (i + 1)) :
    LastWrite (start + 1#16) length b i := by
  refine ⟨Nat.lt_of_succ_lt_succ h.lt, ?_, fun j hij hj => ?_⟩
  · rw [toNat_add_one_add_mod]
    exact h.hits
  · rw [toNat_add_one_add_mod]
    exact h.last (j + 1) (Nat.succ_lt_succ hij) (Nat.succ_lt_succ hj)

variable {m : Machine} {ws : List Word} {start : Word}

theorem wordAt_loadImage_of_ne {b : Nat}
    (h : ∀ i < ws.length, (start.toNat + i) % flashWords ≠ b % flashWords) :
    (m.loadImage ws start).wordAt b = m.wordAt b := by
  induction ws generalizing m start with
  | nil => rfl
  | cons w ws ih =>
    have hfirst := h 0 (by simp)
    have hrest : ∀ i < ws.length, ((start + 1#16).toNat + i) % flashWords ≠ b % flashWords := by
      intro i hi
      rw [toNat_add_one_add_mod]
      exact h (i + 1) (by simpa using hi)
    rw [Nat.add_zero] at hfirst
    rw [loadImage, ih hrest, wordAt_store, if_neg hfirst.symm]

theorem wordAt_loadImage_of_lastWrite {b i : Nat} (h : LastWrite start ws.length b i) :
    ws[i]? = some ((m.loadImage ws start).wordAt b) := by
  induction ws generalizing m start i with
  | nil => exact absurd h.lt (Nat.not_lt_zero i)
  | cons w ws ih =>
    cases i with
    | zero =>
      -- nothing behind the first word falls into its cell, so that word is still there
      have hrest : ∀ j < ws.length, ((start + 1#16).toNat + j) % flashWords ≠ b % flashWords := by
        intro j hj
        rw [toNat_add_one_add_mod]
        exact h.last (j + 1) (Nat.succ_pos j) (Nat.succ_lt_succ hj)
      have hfirst : b % flashWords = start.toNat % flashWords := h.hits.symm
      rw [loadImage, wordAt_loadImage_of_ne hrest, wordAt_store, if_pos hfirst]
      rfl
    | succ i => exact ih h.tail

theorem wordAt_loadImage (h : ws.length ≤ flashWords) {i : Nat} (hi : i < ws.length) :
    (m.loadImage ws start).wordAt (start.toNat + i) = ws[i] := by
  have hlast : LastWrite start ws.length (start.toNat + i) i := by
    refine ⟨hi, rfl, fun j hij hj => ?_⟩
    simp only [flashWords] at h ⊢
    omega
  have hword : ws[i]? = some ((m.loadImage ws start).wordAt (start.toNat + i)) :=
    wordAt_loadImage_of_lastWrite hlast
  rw [List.getElem?_eq_getElem hi] at hword
  exact (Option.some.inj hword).symm

theorem loadImage_lastWrite (m : Machine) (ws : List Word) (start : Word) :
    let loaded := m.loadImage ws start
    (∀ (a : Word) i, LastWrite start ws.length a.toNat i → ws[i]? = some (loaded.fetch a)) ∧
    (∀ a : Word, (∀ i < ws.length, (start.toNat + i) % flashWords ≠ a.toNat % flashWords) →
      loaded.fetch a = m.fetch a) ∧
    loaded.toRegisterFile = m.toRegisterFile ∧
    loaded.executed = m.executed ∧
    ∀ vs, m.loadImage (ws ++ vs) start =
      loaded.loadImage vs (start + BitVec.ofNat 16 ws.length) := by
  intro loaded
  refine ⟨fun a i h => ?_, fun a h => ?_, toRegisterFile_loadImage m ws start,
    executed_loadImage m ws start, fun vs => loadImage_append m ws vs start⟩
  · rw [fetch_eq_wordAt]
    exact wordAt_loadImage_of_lastWrite h
  · rw [fetch_eq_wordAt, fetch_eq_wordAt]
    exact wordAt_loadImage_of_ne h

/-- An image two words longer than the flash, from the last cell on: its place 0x4000 is the second one that
falls into that cell, and place 0x4001 is the second one in the first cell. -/
theorem loadImage_lastWrite_wrapped :
    let ws := List.replicate 0x4000 0x9403#16 ++ [0x9402#16, 0xffff#16]
    LastWrite 0x3fff#16 ws.length 0x7fff 0x4000 ∧
      (initial.loadImage ws 0x3fff#16).fetch 0x7fff#16 = 0x9402#16 ∧
      (∀ i < [0x9403#16].length, ((0x3fff#16).toNat + i) % flashWords ≠ (0x4000#16).toNat % flashWords) ∧
      (initial.loadImage [0x9403#16] 0x3fff#16).fetch 0x4000#16 = initial.fetch 0x4000#16 := by
  intro ws
  have hlength : ws.length = 0x4002 := by rw [List.length_append, List.length_replicate]; rfl
  have hlast : LastWrite 0x3fff#16 ws.length (0x7fff#16).toNat 0x4000 := by
    refine ⟨by omega, rfl, fun j hij hj => ?_⟩
    simp only [flashWords, BitVec.toNat_ofNat]
    omega
  have hword := (loadImage_lastWrite initial ws 0x3fff#16).1 0x7fff#16 0x4000 hlast
  have hkept : ∀ i < [0x9403#16].length,
      ((0x3fff#16).toNat + i) % flashWords ≠ (0x4000#16).toNat % flashWords := by decide
  refine ⟨hlast, ?_, hkept, (loadImage_lastWrite initial [0x9403#16] 0x3fff#16).2.1 0x4000#16 hkept⟩
  have hplace : ws[0x4000]? = some 0x9402#16 := by
    rw [List.getElem?_append_right (Nat.le_of_eq List.length_replicate), List.length_replicate]
    rfl
  rw [hplace] at hword
  exact (Option.some.inj hword).symm

end Machine

end AvrConform
