import AvrConform.Coverage
import AvrConform.Proofs.Transfer
set_option autoImplicit false

namespace AvrConform

theorem Sreg.and_mask_eq_zero_iff {s : Sreg} {f : Flag} : s &&& f.mask = 0#8 ↔ s.get f = false := by
  simp only [ext_get_iff, get_and, get_mask, get_zero, Bool.and_eq_false_iff, decide_eq_false_iff_not]
  constructor
  · intro h
    simpa using h f
  · intro h g
    by_cases hg : g = f
    · exact .inl (hg ▸ h)
    · exact .inr hg

namespace Coverage

theorem get_foldl_add (ss : List Sreg) (v : Coverage) (f : Flag) :
    Sreg.get (ss.foldl add v).seenSet f = (Sreg.get v.seenSet f || ss.any (fun s => s.get f)) ∧
      Sreg.get (ss.foldl add v).seenClear f =
        (Sreg.get v.seenClear f || ss.any (fun s => !s.get f)) := by
  induction ss generalizing v with
  | nil => simp
  | cons s ss ih =>
    obtain ⟨hset, hclear⟩ := ih (v.add s)
    rw [List.foldl_cons, hset, hclear, List.any_cons, List.any_cons]
    simp only [add, Sreg.get_or, Sreg.get_not, Bool.or_assoc, and_self]

/-- The two bytes stand for the whole history: a bit is set if some byte of the list had reason to set it. -/
theorem get_ofList (ss : List Sreg) (f : Flag) :
    Sreg.get (ofList ss).seenSet f = ss.any (fun s => s.get f) ∧
      Sreg.get (ofList ss).seenClear f = ss.any (fun s => !s.get f) := by
  obtain ⟨hset, hclear⟩ := get_foldl_add ss {} f
  rw [Sreg.get_zero, Bool.false_or] at hset hclear
  exact ⟨hset, hclear⟩

theorem missing_ofList (ss : List Sreg) (f : Flag) :
    (ofList ss).missing f =
      if ∀ s ∈ ss, s.get f = true then some false
      else if ∀ s ∈ ss, s.get f = false then some true
      else none := by
  obtain ⟨hset, hclear⟩ := get_ofList ss f
  simp only [missing, Sreg.and_mask_eq_zero_iff, hset, hclear, List.any_eq_false]
  simp

theorem missing_ofList_eq_none {ss : List Sreg} {f : Flag} (hset : ∃ s ∈ ss, s.get f = true)
    (hclear : ∃ s ∈ ss, s.get f = false) : (ofList ss).missing f = none := by
  obtain ⟨s, hs, hsf⟩ := hset
  obtain ⟨t, ht, htf⟩ := hclear
  rw [missing_ofList, if_neg, if_neg]
  · intro hall
    simp [hall s hs] at hsf
  · intro hall
    simp [hall t ht] at htf

end Coverage

theorem Profile.drives_covers {op : Opcode} {f : Flag} (h : f ∈ (Profile.of op).covers) :
    (∃ v ∈ (Profile.of op).values, Sreg.get (Oracle.expected op v 0#8).2 f = true) ∧
      ∃ v ∈ (Profile.of op).values, Sreg.get (Oracle.expected op v 0#8).2 f = false := by
  revert h f
  cases op <;> decide

namespace Arch

theorem get_sreg_expected {a : Arch} {f : Flag} (hfree : Sreg.get a.controlMask f = false)
    (c : Case) : Sreg.get (c.expected a (c.preset a)).sreg f = Sreg.get c.flags f := by
  rw [c.sreg_expected_preset, Sreg.get_and, Sreg.get_not, hfree, Bool.not_false, Bool.and_true]

/-- One register is enough: its operands already drive a promised flag both ways. -/
theorem missing_grid {a : Arch} {op : Opcode} {f : Flag} (hregs : 0 < a.registerCount)
    (hcover : f ∈ (Profile.of op).covers) (hfree : Sreg.get a.controlMask f = false) :
    (Coverage.ofCases a (a.grid op)).missing f = none := by
  have hmem : ∀ v ∈ (Profile.of op).values, (⟨op, 0, v⟩ : Case) ∈ a.grid op :=
    fun v hv => (a.mem_grid_iff op _).mpr ⟨rfl, hregs, hv⟩
  obtain ⟨⟨v, hv, hset⟩, ⟨w, hw, hclear⟩⟩ := Profile.drives_covers hcover
  apply Coverage.missing_ofList_eq_none
  · refine ⟨_, List.mem_map_of_mem (hmem v hv), ?_⟩
    rw [get_sreg_expected hfree]
    exact hset
  · refine ⟨_, List.mem_map_of_mem (hmem w hw), ?_⟩
    rw [get_sreg_expected hfree]
    exact hclear

theorem cases_eq_ok {a : Arch} {op : Opcode}
    (h : ∀ f ∈ (Profile.of op).covers, (Coverage.ofCases a (a.grid op)).missing f = none) :
    a.cases op = .ok (a.grid op) := by
  have hgap : a.gap? op (a.grid op) = none := by
    rw [gap?, List.findSome?_eq_none_iff]
    intro f hf
    rw [h f hf]
    rfl
  rw [cases, hgap]

theorem cases_avr (op : Opcode) : avr.cases op = .ok (avr.grid op) := by
  apply cases_eq_ok
  intro f hf
  have hfree : Sreg.get avr.controlMask f = false := by
    revert f
    cases op <;> decide
  exact missing_grid (by decide) hf hfree

theorem collect_eq_ok {a : Arch} {ops : List Opcode} (h : ∀ op ∈ ops, a.cases op = .ok (a.grid op)) :
    a.collect ops = .ok (ops.flatMap a.grid) := by
  induction ops with
  | nil => rfl
  | cons op ops ih =>
    rw [collect, h op (by simp), ih (fun op' h' => h op' (by simp [h'])), List.flatMap_cons]

theorem eq_grid_of_cases {a : Arch} {op : Opcode} {cs : List Case} (h : a.cases op = .ok cs) :
    cs = a.grid op := by
  rw [cases] at h
  split at h
  · cases h
  · exact (Except.ok.inj h).symm

theorem eq_flatMap_of_collect {a : Arch} {ops : List Opcode} {cs : List Case}
    (h : a.collect ops = .ok cs) : cs = ops.flatMap a.grid := by
  induction ops generalizing cs with
  | nil => exact (Except.ok.inj h).symm
  | cons op ops ih =>
    rw [collect] at h
    split at h
    · cases h
    · cases h
    · next first more hfirst hmore =>
      rw [← Except.ok.inj h, List.flatMap_cons, eq_grid_of_cases hfirst, ih hmore]

theorem rd_lt_of_mem_matrix {a : Arch} {ops : List Opcode} {cs : List Case}
    (h : a.matrix ops = .ok cs) {c : Case} (hc : c ∈ cs) : c.rd.val < a.registerCount := by
  rw [eq_flatMap_of_collect h] at hc
  obtain ⟨op, -, hgrid⟩ := List.mem_flatMap.mp hc
  exact ((a.mem_grid_iff op c).mp hgrid).2.1

theorem matrix_avr (ops : List Opcode) : avr.matrix ops = .ok (ops.eraseDups.flatMap avr.grid) :=
  collect_eq_ok (fun op _ => cases_avr op)

theorem mem_matrix_avr {ops : List Opcode} {c : Case} :
    c ∈ ops.eraseDups.flatMap avr.grid ↔
      c.opcode ∈ ops ∧ c.operand ∈ (Profile.of c.opcode).values := by
  have hrd : c.rd.val < avr.registerCount := c.rd.isLt
  rw [List.mem_flatMap]
  constructor
  · rintro ⟨op, hop, hc⟩
    obtain ⟨rfl, -, hv⟩ := (avr.mem_grid_iff op c).mp hc
    exact ⟨List.mem_eraseDups.mp hop, hv⟩
  · rintro ⟨hop, hv⟩
    exact ⟨c.opcode, List.mem_eraseDups.mpr hop, (avr.mem_grid_iff _ c).mpr ⟨rfl, hrd, hv⟩⟩

end Arch

end AvrConform
