import AvrConform.Failure
set_option autoImplicit false

namespace AvrConform

namespace Case

def divergences (a : Arch) (c : Case) (snapshot : RegisterFile) : List Divergence :=
  a.ids.filterMap (c.divergence? a snapshot)

theorem judge_eq (a : Arch) (c : Case) (snapshot : RegisterFile) :
    c.judge a snapshot =
      if c.divergences a snapshot = [] then .ok ()
      else .error ⟨c, c.word, .assertion (c.divergences a snapshot)⟩ := by
  rw [judge, ← divergences]
  cases c.divergences a snapshot with
  | nil => rfl
  | cons d ds => rfl

def divergenceAt (a : Arch) (c : Case) (snapshot : RegisterFile) (i : RegId) : Divergence :=
  if c.touches i then .mismatch i ((c.expected a (c.preset a)).get i) (snapshot.get i)
  else .mutation i ((c.preset a).get i) (snapshot.get i)

def disagreements (a : Arch) (c : Case) (snapshot : RegisterFile) : List RegId :=
  a.ids.filter (fun i => snapshot.get i ≠ (c.expected a (c.preset a)).get i)

theorem divergences_eq (a : Arch) (c : Case) (snapshot : RegisterFile) :
    c.divergences a snapshot = (c.disagreements a snapshot).map (c.divergenceAt a snapshot) := by
  have hentry : ∀ i, c.divergence? a snapshot i =
      if snapshot.get i ≠ (c.expected a (c.preset a)).get i then
        some (c.divergenceAt a snapshot i)
      else none := by
    intro i
    by_cases h : snapshot.get i = (c.expected a (c.preset a)).get i
    · simp [divergence?, h]
    · have h' : (c.expected a (c.preset a)).get i ≠ snapshot.get i := fun e => h e.symm
      cases ht : c.touches i <;> simp [divergence?, divergenceAt, h, h', ht]
  rw [divergences, disagreements]
  induction a.ids with
  | nil => rfl
  | cons i is ih =>
    rw [List.filterMap_cons, hentry, ih]
    by_cases h : snapshot.get i = (c.expected a (c.preset a)).get i <;> simp [h]

theorem ids_avr : Arch.avr.ids = RegId.all := by
  have hregs : Arch.avr.regs = Reg.all := by decide
  rw [Arch.ids, hregs, RegId.all]

theorem judge_avr (c : Case) (snapshot : RegisterFile) :
    c.judge Arch.avr snapshot =
      if snapshot = c.expected Arch.avr (c.preset Arch.avr) then .ok ()
      else .error ⟨c, c.word, .assertion
        ((RegId.all.filter (fun i =>
          snapshot.get i ≠ (c.expected Arch.avr (c.preset Arch.avr)).get i)).map
            (c.divergenceAt Arch.avr snapshot))⟩ := by
  have hds := c.divergences_eq Arch.avr snapshot
  rw [disagreements, ids_avr] at hds
  rw [judge_eq, hds]
  by_cases h : snapshot = c.expected Arch.avr (c.preset Arch.avr)
  · simp [h]
  · rw [if_neg h, if_neg]
    intro hnil
    rw [List.map_eq_nil_iff, List.filter_eq_nil_iff] at hnil
    apply h
    apply RegisterFile.ext_get
    intro i
    simpa using hnil i (RegId.mem_all i)

theorem judge_avr_eq_ok_iff (c : Case) (snapshot : RegisterFile) :
    c.judge Arch.avr snapshot = .ok () ↔ snapshot = c.expected Arch.avr (c.preset Arch.avr) := by
  rw [judge_avr]
  by_cases h : snapshot = c.expected Arch.avr (c.preset Arch.avr) <;> simp [h]

end Case

end AvrConform
