import AvrConform.Proofs.Generation
set_option autoImplicit false

namespace AvrConform

namespace Coverage

def or (v w : Coverage) : Coverage := ⟨v.seenClear ||| w.seenClear, v.seenSet ||| w.seenSet⟩

theorem ext_get {v w : Coverage} (hset : ∀ f, Sreg.get v.seenSet f = Sreg.get w.seenSet f)
    (hclear : ∀ f, Sreg.get v.seenClear f = Sreg.get w.seenClear f) : v = w := by
  obtain ⟨vc, vs⟩ := v
  obtain ⟨wc, ws⟩ := w
  have hs : vs = ws := Sreg.ext_get hset
  have hc : vc = wc := Sreg.ext_get hclear
  rw [hs, hc]

variable {ss ts : List Sreg} {f : Flag}

theorem ofList_append (ss ts : List Sreg) : ofList (ss ++ ts) = (ofList ss).or (ofList ts) := by
  apply ext_get
  · intro f
    rw [(get_ofList _ f).1, or, Sreg.get_or, (get_ofList ss f).1, (get_ofList ts f).1, List.any_append]
  · intro f
    rw [(get_ofList _ f).2, or, Sreg.get_or, (get_ofList ss f).2, (get_ofList ts f).2, List.any_append]

theorem ofList_congr (h : ∀ s, s ∈ ss ↔ s ∈ ts) : ofList ss = ofList ts := by
  have hany : ∀ p : Sreg → Bool, ss.any p = ts.any p := by
    intro p
    rw [Bool.eq_iff_iff, List.any_eq_true, List.any_eq_true]
    simp only [h]
  apply ext_get
  · intro f
    rw [(get_ofList ss f).1, (get_ofList ts f).1, hany]
  · intro f
    rw [(get_ofList ss f).2, (get_ofList ts f).2, hany]

theorem missing_ofList_eq_some_false_iff :
    (ofList ss).missing f = some false ↔ ∀ s ∈ ss, s.get f = true := by
  rw [missing_ofList]
  by_cases hset : ∀ s ∈ ss, s.get f = true
  · rw [if_pos hset]
    exact ⟨fun _ => hset, fun _ => rfl⟩
  · rw [if_neg hset]
    refine ⟨fun h => ?_, fun h => absurd h hset⟩
    split at h <;> cases h

theorem missing_ofList_eq_none_iff :
    (ofList ss).missing f = none ↔ (∃ s ∈ ss, s.get f = true) ∧ ∃ s ∈ ss, s.get f = false := by
  constructor
  · intro h
    rw [missing_ofList] at h
    split at h
    · cases h
    · next hset =>
      split at h
      · cases h
      · next hclear => exact ⟨by simpa using hclear, by simpa using hset⟩
  · rintro ⟨hset, hclear⟩
    exact missing_ofList_eq_none hset hclear

theorem missing_ofList_eq_some_true_iff :
    (ofList ss).missing f = some true ↔ (∃ s ∈ ss, s.get f = false) ∧ ∀ s ∈ ss, s.get f = false := by
  constructor
  · intro h
    rw [missing_ofList] at h
    split at h
    · cases h
    · next hset =>
      split at h
      · next hclear => exact ⟨by simpa using hset, hclear⟩
      · cases h
  · rintro ⟨⟨s, hs, hsf⟩, hclear⟩
    have hset : ¬ ∀ s ∈ ss, s.get f = true := fun hall => by simp [hall s hs] at hsf
    rw [missing_ofList, if_neg hset, if_pos hclear]

theorem foldl_add_ofList (ss ts : List Sreg) : ts.foldl add (ofList ss) = ofList (ss ++ ts) := by
  rw [ofList, ofList, List.foldl_append]

/-- A flag that was driven both ways stays so, whatever is added. -/
theorem missing_foldl_add (h : (ofList ss).missing f = none) :
    (ts.foldl add (ofList ss)).missing f = none := by
  obtain ⟨⟨s, hs, hset⟩, ⟨t, ht, hclear⟩⟩ := missing_ofList_eq_none_iff.mp h
  rw [foldl_add_ofList]
  exact missing_ofList_eq_none ⟨s, List.mem_append_left ts hs, hset⟩
    ⟨t, List.mem_append_left ts ht, hclear⟩

theorem ofCases_congr (a : Arch) {cs ds : List Case} (h : ∀ c, c ∈ cs ↔ c ∈ ds) :
    ofCases a cs = ofCases a ds := by
  apply ofList_congr
  intro s
  simp only [List.mem_map, h]

theorem get_seenSet_ofCases {a : Arch} (h : a.reserves f = true) (cs : List Case) :
    Sreg.get (ofCases a cs).seenSet f = false := by
  rw [ofCases, (get_ofList _ f).1, List.any_map, List.any_eq_false]
  intro c _
  simp [Arch.get_sreg_expected_of_reserves h c]

end Coverage

/-- The written flags that a profile leaves out: complementing always sets the carry and never overflows,
and with a clear carry no shift to the right gives a negative result. -/
theorem Profile.written_of_notMem_covers {op : Opcode} {f : Flag} (hwritten : f ∈ Oracle.writes op)
    (h : f ∉ (Profile.of op).covers) :
    op = .com ∧ (f = .carry ∨ f = .overflow) ∨ (op = .lsr ∨ op = .ror) ∧ f = .negative := by
  revert f
  cases op <;> decide

theorem Profile.get_expected_of_notMem_covers {op : Opcode} {f : Flag} (h : f ∉ (Profile.of op).covers)
    (v w : Byte) :
    Sreg.get (Oracle.expected op v 0#8).2 f = Sreg.get (Oracle.expected op w 0#8).2 f := by
  rw [Oracle.get_expected, Oracle.get_expected]
  by_cases hwritten : f ∈ Oracle.writes op
  · have hshift : ∀ v : Byte, (v >>> 1).msb = false := by decide
    rw [if_pos hwritten, if_pos hwritten]
    rcases written_of_notMem_covers hwritten h with ⟨rfl, rfl | rfl⟩ | ⟨rfl | rfl, rfl⟩ <;>
      simp [Oracle.compute, Oracle.get_pack, Oracle.shiftFlags, Oracle.resultFlags, hshift]
  · rw [if_neg hwritten, if_neg hwritten]

namespace Coverage

theorem mem_covers_of_missing_ofCases {a : Arch} {op : Opcode} {cs : List Case}
    (hop : ∀ c ∈ cs, c.opcode = op) {f : Flag} (h : (ofCases a cs).missing f = none) :
    f ∈ (Profile.of op).covers := by
  obtain ⟨⟨s, hs, hset⟩, ⟨t, ht, hclear⟩⟩ := missing_ofList_eq_none_iff.mp h
  obtain ⟨c, hc, rfl⟩ := List.mem_map.mp hs
  obtain ⟨d, hd, rfl⟩ := List.mem_map.mp ht
  have hfree : Sreg.get a.controlMask f = false := by
    rw [Arch.get_controlMask, Bool.eq_false_iff]
    intro hreserved
    rw [Arch.get_sreg_expected_of_reserves hreserved c] at hset
    cases hset
  rw [Arch.get_sreg_expected hfree, Case.flags, hop c hc] at hset
  rw [Arch.get_sreg_expected hfree, Case.flags, hop d hd] at hclear
  by_contra hout
  rw [Profile.get_expected_of_notMem_covers hout c.operand d.operand, hclear] at hset
  cases hset

theorem ofList_tells :
    (∀ (ss : List Sreg) f,
      ((ofList ss).missing f = none ↔ (∃ s ∈ ss, s.get f = true) ∧ ∃ s ∈ ss, s.get f = false) ∧
      ((ofList ss).missing f = some false ↔ ∀ s ∈ ss, s.get f = true) ∧
      ((ofList ss).missing f = some true ↔
        (∃ s ∈ ss, s.get f = false) ∧ ∀ s ∈ ss, s.get f = false)) ∧
    (∀ ss ts : List Sreg, (∀ s, s ∈ ss ↔ s ∈ ts) → ofList ss = ofList ts) ∧
    (∀ ss ts : List Sreg, ofList (ss ++ ts) = (ofList ss).or (ofList ts)) ∧
    (∀ (ss ts : List Sreg) f, (ofList ss).missing f = none → (ts.foldl add (ofList ss)).missing f = none) ∧
    ∀ a : Arch,
      (∀ cs ds, (∀ c, c ∈ cs ↔ c ∈ ds) → ofCases a cs = ofCases a ds) ∧
      (∀ cs f, f = a.controlFlags.1 ∨ f = a.controlFlags.2 →
        Sreg.get (ofCases a cs).seenSet f = false) ∧
      ∀ op cs, (∀ c ∈ cs, c.opcode = op) →
        ∀ f, (ofCases a cs).missing f = none → f ∈ (Profile.of op).covers := by
  refine ⟨fun ss f => ⟨missing_ofList_eq_none_iff, missing_ofList_eq_some_false_iff,
    missing_ofList_eq_some_true_iff⟩, fun ss ts => ofList_congr, ofList_append,
    fun ss ts f => missing_foldl_add, fun a => ⟨fun cs ds => ofCases_congr a, fun cs f hf => ?_,
    fun op cs hop f => mem_covers_of_missing_ofCases hop⟩⟩
  have hreserved : a.reserves f = true := decide_eq_true hf
  exact get_seenSet_ofCases hreserved cs

/-- Two rotations, one of them on a register that the table does not know, drive the carry under a table
that reserves other flags. -/
theorem ofList_tells_ror :
    let a : Arch := { registerCount := 4, controlFlags := (.zero, .interrupt) }
    let cs : List Case := [⟨.ror, 3, 0x01#8⟩, ⟨.ror, 31, 0x02#8⟩]
    ((∀ s, s ∈ [0x01#8, 0x02#8] ↔ s ∈ [0x02#8, 0x01#8, 0x02#8]) ∧
      ofList [0x01#8, 0x02#8] = ofList [0x02#8, 0x01#8, 0x02#8]) ∧
    ((ofList [0x01#8, 0x02#8]).missing .zero = none ∧
      ([0xff#8].foldl add (ofList [0x01#8, 0x02#8])).missing .zero = none) ∧
    ((∀ c, c ∈ cs ↔ c ∈ cs ++ cs) ∧ ofCases a cs = ofCases a (cs ++ cs)) ∧
    Sreg.get (ofCases a cs).seenSet .zero = false ∧
    (∀ c ∈ cs, c.opcode = .ror) ∧ (ofCases a cs).missing .carry = none ∧
      .carry ∈ (Profile.of .ror).covers := by
  intro a cs
  obtain ⟨-, hsame, -, hadd, hcases⟩ := ofList_tells
  obtain ⟨hcongr, hcontrol, hcovers⟩ := hcases a
  have hbytes : ∀ s, s ∈ [0x01#8, 0x02#8] ↔ s ∈ [0x02#8, 0x01#8, 0x02#8] := by decide
  have hzero : (ofList [0x01#8, 0x02#8]).missing .zero = none := by decide
  have htwice : ∀ c, c ∈ cs ↔ c ∈ cs ++ cs := by simp
  have hror : ∀ c ∈ cs, c.opcode = .ror := by decide
  have hcarry : (ofCases a cs).missing .carry = none := by decide
  exact ⟨⟨hbytes, hsame _ _ hbytes⟩, ⟨hzero, hadd _ _ .zero hzero⟩, ⟨htwice, hcongr _ _ htwice⟩,
    hcontrol cs .zero (.inl rfl), hror, hcarry, hcovers .ror cs hror .carry hcarry⟩

end Coverage

end AvrConform
