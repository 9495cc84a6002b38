import AvrConform.Bench
import AvrConform.Proofs.Numerals
set_option autoImplicit false

/-! The texts of failures and reports can be read in one way only. What stands behind a part tells where
it ends, so equal texts are taken apart from the front: each part is told together with its rest. -/

namespace AvrConform

theorem RegId.wire_append_inj {i j : RegId} {s t : List Char} (hs : StartsOutside isDigit s)
    (ht : StartsOutside isDigit t) (h : i.wire ++ s = j.wire ++ t) : i = j ∧ s = t := by
  cases i with
  | gpr r =>
    cases j with
    | gpr q =>
      obtain ⟨hval, hrest⟩ := decimal_append_inj hs ht (List.cons.inj h).2
      exact ⟨congrArg gpr (Fin.ext hval), hrest⟩
    | sreg => exact absurd (List.cons.inj h).1 (by decide)
    | pc => exact absurd (List.cons.inj h).1 (by decide)
  | sreg =>
    cases j with
    | gpr q => exact absurd (List.cons.inj h).1 (by decide)
    | sreg => exact ⟨rfl, List.append_cancel_left h⟩
    | pc => exact absurd (List.cons.inj h).1 (by decide)
  | pc =>
    cases j with
    | gpr q => exact absurd (List.cons.inj h).1 (by decide)
    | sreg => exact absurd (List.cons.inj h).1 (by decide)
    | pc => exact ⟨rfl, List.append_cancel_left h⟩

theorem Word.wire_append_inj {w v : Word} {s t : List Char} (hs : StartsOutside isDigit s)
    (ht : StartsOutside isDigit t) (h : w.wire ++ s = v.wire ++ t) : w = v ∧ s = t := by
  obtain ⟨hval, hrest⟩ := hex_append_inj hs ht h
  exact ⟨BitVec.eq_of_toNat_eq hval, hrest⟩

namespace Divergence

/-- The number is read first; whatever else belongs to the value is settled by it. -/
theorem valueWire_append_inj {i : RegId} {w v : Word} {s t : List Char}
    (hs : StartsOutside isDigit s) (ht : StartsOutside isDigit t)
    (h : valueWire i w ++ s = valueWire i v ++ t) : w = v ∧ s = t := by
  have hsame : w = v := by
    cases i with
    | gpr r => exact BitVec.eq_of_toNat_eq (hex_append_inj hs ht h).1
    | sreg =>
      simp only [valueWire, List.append_assoc] at h
      have hparen : ∀ u, StartsOutside isDigit (" (".toList ++ u) := startsOutside_text " (" (by decide)
      exact BitVec.eq_of_toNat_eq (hex_append_inj (hparen _) (hparen _) h).1
    | pc => exact (Word.wire_append_inj hs ht h).1
  subst hsame
  exact ⟨rfl, List.append_cancel_left h⟩

theorem startsOutside_flagsWire {s : List Char} (hs : StartsOutside isDigit s) (i : RegId) (a b : Word) :
    StartsOutside isDigit (flagsWire i a b ++ s) := by
  cases i with
  | gpr r => exact hs
  | sreg => exact (by decide : isDigit ',' = false)
  | pc => exact hs

theorem mismatch_wire_append (i : RegId) (a b : Word) (s : List Char) :
    (mismatch i a b).wire ++ s = i.wire ++ (" expected ".toList ++ (valueWire i a ++
      (", got ".toList ++ (valueWire i b ++ (flagsWire i a b ++ s))))) := by
  have hwire : (mismatch i a b).wire = i.wire ++ " expected ".toList ++ valueWire i a ++
    ", got ".toList ++ valueWire i b ++ flagsWire i a b := rfl
  simp only [hwire, List.append_assoc]

theorem mutation_wire_append (i : RegId) (a b : Word) (s : List Char) :
    (mutation i a b).wire ++ s = i.wire ++ (" changed unexpectedly from ".toList ++
      (valueWire i a ++ (" to ".toList ++ (valueWire i b ++ s)))) := by
  have hwire : (mutation i a b).wire = i.wire ++ " changed unexpectedly from ".toList ++
    valueWire i a ++ " to ".toList ++ valueWire i b := rfl
  simp only [hwire, List.append_assoc]

theorem wire_append_inj {d e : Divergence} {s t : List Char} (hs : StartsOutside isDigit s)
    (ht : StartsOutside isDigit t) (h : d.wire ++ s = e.wire ++ t) : d = e ∧ s = t := by
  have hexpected : ∀ u, StartsOutside isDigit (" expected ".toList ++ u) :=
    startsOutside_text " expected " (by decide)
  have hchanged : ∀ u, StartsOutside isDigit (" changed unexpectedly from ".toList ++ u) :=
    startsOutside_text " changed unexpectedly from " (by decide)
  have hverb : ∀ u v, " expected ".toList ++ u ≠ " changed unexpectedly from ".toList ++ v := by simp
  cases d with
  | mismatch i a b =>
    rw [mismatch_wire_append] at h
    cases e with
    | mismatch j a' b' =>
      have hgot : ∀ u, StartsOutside isDigit (", got ".toList ++ u) := startsOutside_text ", got " (by decide)
      rw [mismatch_wire_append] at h
      obtain ⟨rfl, hvalues⟩ := RegId.wire_append_inj (hexpected _) (hexpected _) h
      obtain ⟨rfl, hvalue⟩ := valueWire_append_inj (hgot _) (hgot _) (List.append_cancel_left hvalues)
      obtain ⟨rfl, hflags⟩ := valueWire_append_inj (startsOutside_flagsWire hs i a b)
        (startsOutside_flagsWire ht i a b') (List.append_cancel_left hvalue)
      exact ⟨rfl, List.append_cancel_left hflags⟩
    | mutation j a' b' =>
      rw [mutation_wire_append] at h
      exact absurd (RegId.wire_append_inj (hexpected _) (hchanged _) h).2 (hverb _ _)
  | mutation i a b =>
    rw [mutation_wire_append] at h
    cases e with
    | mismatch j a' b' =>
      rw [mismatch_wire_append] at h
      exact absurd (RegId.wire_append_inj (hchanged _) (hexpected _) h).2.symm (hverb _ _)
    | mutation j a' b' =>
      have hto : ∀ u, StartsOutside isDigit (" to ".toList ++ u) := startsOutside_text " to " (by decide)
      rw [mutation_wire_append] at h
      obtain ⟨rfl, hvalues⟩ := RegId.wire_append_inj (hchanged _) (hchanged _) h
      obtain ⟨rfl, hvalue⟩ := valueWire_append_inj (hto _) (hto _) (List.append_cancel_left hvalues)
      obtain ⟨rfl, hend⟩ := valueWire_append_inj hs ht (List.append_cancel_left hvalue)
      exact ⟨rfl, hend⟩

/-- A divergence starts with the name of its entry: not like a new line, nor like a decode failure. -/
theorem wire_eq_cons (d : Divergence) : ∃ c u, c ≠ '\n' ∧ c ≠ 'd' ∧ d.wire = c :: u := by
  have hentry : ∀ (i : RegId) u, ∃ c v, c ≠ '\n' ∧ c ≠ 'd' ∧ i.wire ++ u = c :: v := by
    intro i u
    cases i with
    | gpr r => exact ⟨'r', decimal r.val ++ u, by decide, by decide, rfl⟩
    | sreg => exact ⟨'S', "REG".toList ++ u, by decide, by decide, rfl⟩
    | pc => exact ⟨'P', 'C' :: u, by decide, by decide, rfl⟩
  rw [← List.append_nil d.wire]
  cases d with
  | mismatch i a b =>
    rw [mismatch_wire_append]
    exact hentry i _
  | mutation i a b =>
    rw [mutation_wire_append]
    exact hentry i _

end Divergence

abbrev AtLineEnd (s : List Char) : Prop := StartsOutside (fun c => c != '\n') s

theorem AtLineEnd.startsOutside {p : Char → Bool} {s : List Char} (hp : p '\n' = false)
    (hs : AtLineEnd s) : StartsOutside p s := by
  cases s with
  | nil => trivial
  | cons c s =>
    have hc : c = '\n' := by simpa [StartsOutside] using hs
    exact hc ▸ hp

namespace Cause

def furtherWire (ds : List Divergence) : List Char := ds.flatMap (fun d => "; ".toList ++ d.wire)

theorem wire_assertion_cons (d : Divergence) (ds : List Divergence) :
    (assertion (d :: ds)).wire = d.wire ++ furtherWire ds := by
  have hwire : ∀ d ds, (assertion (d :: ds)).wire =
      "; ".toList.intercalate (d.wire :: ds.map Divergence.wire) := fun _ _ => rfl
  induction ds generalizing d with
  | nil => simp [hwire, furtherWire]
  | cons e ds ih =>
    rw [hwire, List.map_cons, List.intercalate_cons_cons, ← hwire, ih, furtherWire, furtherWire,
      List.flatMap_cons, List.append_assoc, List.append_assoc]

section

variable {s t : List Char} (hs : AtLineEnd s) (ht : AtLineEnd t)
include hs

theorem startsOutside_furtherWire (ds : List Divergence) :
    StartsOutside isDigit (furtherWire ds ++ s) := by
  cases ds with
  | nil => exact hs.startsOutside (by decide)
  | cons d ds => exact (by decide : isDigit ';' = false)

include ht

theorem furtherWire_append_inj {ds es : List Divergence}
    (h : furtherWire ds ++ s = furtherWire es ++ t) : ds = es ∧ s = t := by
  induction ds generalizing es with
  | nil =>
    cases es with
    | nil => exact ⟨rfl, h⟩
    | cons e es => exact absurd h (hs.ne_cons (by decide))
  | cons d ds ih =>
    cases es with
    | nil => exact absurd h.symm (ht.ne_cons (by decide))
    | cons e es =>
      simp only [furtherWire, List.flatMap_cons, List.append_assoc] at h
      obtain ⟨rfl, hrest⟩ := Divergence.wire_append_inj (startsOutside_furtherWire hs ds)
        (startsOutside_furtherWire ht es) (List.append_cancel_left h)
      obtain ⟨rfl, hend⟩ := ih hrest
      exact ⟨rfl, hend⟩

theorem assertion_append_inj {ds es : List Divergence}
    (h : (assertion ds).wire ++ s = (assertion es).wire ++ t) : ds = es ∧ s = t := by
  have hcons : ∀ {s : List Char}, AtLineEnd s → ∀ (d : Divergence) ds u,
      s ≠ (assertion (d :: ds)).wire ++ u := by
    intro s hs d ds u
    obtain ⟨c, v, hline, -, hwire⟩ := d.wire_eq_cons
    have hout : (c != '\n') = true := bne_iff_ne.mpr hline
    rw [wire_assertion_cons, hwire]
    exact hs.ne_cons hout
  cases ds with
  | nil =>
    cases es with
    | nil => exact ⟨rfl, h⟩
    | cons e es => exact absurd h (hcons hs e es t)
  | cons d ds =>
    cases es with
    | nil => exact absurd h.symm (hcons ht d ds s)
    | cons e es =>
      rw [wire_assertion_cons, wire_assertion_cons, List.append_assoc, List.append_assoc] at h
      obtain ⟨rfl, hrest⟩ := Divergence.wire_append_inj (startsOutside_furtherWire hs ds)
        (startsOutside_furtherWire ht es) h
      obtain ⟨rfl, hend⟩ := furtherWire_append_inj hs ht hrest
      exact ⟨rfl, hend⟩

omit ht

theorem assertion_append_ne_decode (ds : List Divergence) (message : String) :
    (assertion ds).wire ++ s ≠ (decode message).wire ++ t := by
  cases ds with
  | nil => exact hs.ne_cons (by decide)
  | cons d ds =>
    obtain ⟨c, u, -, hd, hwire⟩ := d.wire_eq_cons
    rw [wire_assertion_cons, hwire]
    exact fun h => hd (List.cons.inj h).1

include ht

/-- A message is arbitrary, so where it ends has to be known from elsewhere. -/
theorem wire_append_inj {c d : Cause}
    (hmessage : ∀ m n, c = .decode m → d = .decode n → m.toList ++ s = n.toList ++ t →
      m.toList = n.toList ∧ s = t)
    (h : c.wire ++ s = d.wire ++ t) : c = d ∧ s = t := by
  cases c with
  | assertion ds =>
    cases d with
    | assertion es =>
      obtain ⟨rfl, hend⟩ := assertion_append_inj hs ht h
      exact ⟨rfl, hend⟩
    | decode n => exact absurd h (assertion_append_ne_decode hs ds n)
  | decode m =>
    cases d with
    | assertion es => exact absurd h.symm (assertion_append_ne_decode ht es m)
    | decode n =>
      have hwire : ∀ (m : String) u, (decode m).wire ++ u =
          "decode failure: ".toList ++ (m.toList ++ u) := fun _ _ => List.append_assoc _ _ _
      rw [hwire, hwire] at h
      obtain ⟨hsame, hend⟩ := hmessage m n rfl rfl (List.append_cancel_left h)
      exact ⟨congrArg decode (String.toList_inj.mp hsame), hend⟩

end

end Cause

theorem Opcode.mnemonic_injective {op o : Opcode} (h : op.mnemonic = o.mnemonic) : op = o := by
  apply wire_injective
  rw [← toLower_mnemonic, h, toLower_mnemonic]

theorem Case.name_append_inj {c d : Case} {s t : List Char} (hs : StartsOutside isDigit s)
    (ht : StartsOutside isDigit t) (h : c.name ++ s = d.name ++ t) : c = d ∧ s = t := by
  have hmnemonic : ∀ op : Opcode, '_' ∉ op.mnemonic := by
    intro op
    cases op <;> decide
  have hr : ∀ u, StartsOutside (fun d => d != '_') ("_r".toList ++ u) := startsOutside_text "_r" (by decide)
  have hv : ∀ u, StartsOutside isDigit ("_v".toList ++ u) := startsOutside_text "_v" (by decide)
  simp only [name, List.append_assoc] at h
  obtain ⟨hop, hfields⟩ := append_inj_of_notMem (hmnemonic _) (hmnemonic _) (hr _) (hr _) h
  obtain ⟨hrd, hfield⟩ := numeral_append_inj (by decide) (by decide) (hv _) (hv _)
    (List.append_cancel_left hfields)
  obtain ⟨hoperand, hend⟩ := numeral_append_inj (by decide) (by decide) hs ht
    (List.append_cancel_left hfield)
  cases c
  cases d
  obtain rfl := Opcode.mnemonic_injective hop
  obtain rfl := Fin.ext hrd
  obtain rfl := BitVec.eq_of_toNat_eq hoperand
  exact ⟨rfl, hend⟩

namespace Failure

theorem wire_append_inj {f g : Failure} {s t : List Char} (hs : AtLineEnd s) (ht : AtLineEnd t)
    (hmessage : ∀ m n, f.cause = .decode m → g.cause = .decode n →
      m.toList ++ s = n.toList ++ t → m.toList = n.toList ∧ s = t)
    (h : f.wire ++ s = g.wire ++ t) : f = g ∧ s = t := by
  have hopen : ∀ u, StartsOutside isDigit (" [".toList ++ u) := startsOutside_text " [" (by decide)
  have hclose : ∀ u, StartsOutside isDigit ("]: ".toList ++ u) := startsOutside_text "]: " (by decide)
  simp only [wire, List.append_assoc] at h
  obtain ⟨hcase, hword⟩ := Case.name_append_inj (hopen _) (hopen _) h
  obtain ⟨hword, hcause⟩ := Word.wire_append_inj (hclose _) (hclose _) (List.append_cancel_left hword)
  obtain ⟨hcause, hend⟩ := Cause.wire_append_inj hs ht hmessage (List.append_cancel_left hcause)
  cases f
  cases g
  cases hcase
  cases hword
  cases hcause
  exact ⟨rfl, hend⟩

theorem wire_injective {f g : Failure} (h : f.wire = g.wire) : f = g := by
  refine (wire_append_inj (s := []) (t := []) trivial trivial ?_ (by simpa using h)).1
  intro m n _ _ hsame
  exact ⟨by simpa using hsame, rfl⟩

/-- A message that the failure quotes stays in its line. -/
def OneLine (f : Failure) : Prop := ∀ message, f.cause = .decode message → '\n' ∉ message.toList

theorem wire_append_newline_inj {f g : Failure} {s t : List Char} (hf : f.OneLine) (hg : g.OneLine)
    (h : f.wire ++ '\n' :: s = g.wire ++ '\n' :: t) : f = g ∧ s = t := by
  have hend : ∀ u, AtLineEnd ('\n' :: u) := fun _ => (by decide : ('\n' != '\n') = false)
  obtain ⟨hsame, hrest⟩ := wire_append_inj (hend s) (hend t) (by
    intro m n hm hn hrest
    exact append_inj_of_notMem (hf m hm) (hg n hn) (hend s) (hend t) hrest) h
  exact ⟨hsame, (List.cons.inj hrest).2⟩

end Failure

theorem InvalidInstruction.newline_notMem_wire (e : InvalidInstruction) : '\n' ∉ e.wire := by
  have hword : ∀ w : Word, '\n' ∉ w.wire := fun w => notMem_hex (by decide) (by decide) 4 w.toNat
  unfold wire
  simp [hword]

namespace Report

def linesWire (fs : List Failure) : List Char :=
  fs.flatMap (fun f => "FAIL ".toList ++ f.wire ++ ['\n'])

/-- What follows the lines of the failures starts with a digit, and they do not. -/
theorem linesWire_append_inj {fs gs : List Failure} {s t : List Char}
    (hs : StartsOutside (fun c => !isDigit c) s) (ht : StartsOutside (fun c => !isDigit c) t)
    (hf : ∀ f ∈ fs, f.OneLine) (hg : ∀ g ∈ gs, g.OneLine)
    (h : linesWire fs ++ s = linesWire gs ++ t) : fs = gs ∧ s = t := by
  have hline : ∀ f fs u, linesWire (f :: fs) ++ u =
      "FAIL ".toList ++ (f.wire ++ '\n' :: (linesWire fs ++ u)) := by
    intro f fs u
    simp [linesWire]
  induction fs generalizing gs with
  | nil =>
    cases gs with
    | nil => exact ⟨rfl, h⟩
    | cons g gs =>
      rw [hline] at h
      exact absurd h (hs.ne_cons (by decide))
  | cons f fs ih =>
    cases gs with
    | nil =>
      rw [hline] at h
      exact absurd h.symm (ht.ne_cons (by decide))
    | cons g gs =>
      rw [hline, hline] at h
      obtain ⟨rfl, hrest⟩ := Failure.wire_append_newline_inj (hf f List.mem_cons_self)
        (hg g List.mem_cons_self) (List.append_cancel_left h)
      obtain ⟨rfl, hend⟩ := ih (fun f' h' => hf f' (List.mem_cons_of_mem _ h'))
        (fun g' h' => hg g' (List.mem_cons_of_mem _ h')) hrest
      exact ⟨rfl, hend⟩

theorem wire_eq (r : Report) :
    ∃ u, r.wire = linesWire r.failures ++ (decimal r.passed ++ (" passed, ".toList ++ u)) := by
  refine ⟨decimal r.failures.length ++ (" failed (".toList ++ (decimal r.decodeFailures ++
    " decode failures)\n".toList)), ?_⟩
  unfold wire linesWire
  simp only [List.append_assoc]

theorem wire_injective_of_oneLine {r t : Report} (hr : ∀ f ∈ r.failures, f.OneLine)
    (ht : ∀ f ∈ t.failures, f.OneLine) (h : r.wire = t.wire) : r = t := by
  obtain ⟨u, hru⟩ := r.wire_eq
  obtain ⟨v, htv⟩ := t.wire_eq
  have hdecimal : ∀ n u, StartsOutside (fun c => !isDigit c) (decimal n ++ u) := by
    intro n u
    cases hn : decimal n with
    | nil => exact absurd hn (numeral_ne_nil 10 1 n)
    | cons c cs =>
      have hc := isDigit_of_mem_decimal (hn ▸ List.mem_cons_self : c ∈ decimal n)
      simp [StartsOutside, hc]
  have hpassed : ∀ u, StartsOutside isDigit (" passed, ".toList ++ u) :=
    startsOutside_text " passed, " (by decide)
  rw [hru, htv] at h
  obtain ⟨hfailures, hsummary⟩ := linesWire_append_inj (hdecimal _ _) (hdecimal _ _) hr ht h
  have hcount := (decimal_append_inj (hpassed _) (hpassed _) hsummary).1
  cases r
  cases t
  cases hfailures
  cases hcount
  rfl

theorem wire_unambiguous :
    (∀ f g : Failure, f.wire = g.wire → f = g) ∧
    (∀ e : InvalidInstruction, '\n' ∉ (Simulator.machine.describe e).toList) ∧
    ∀ r t : Report, (∀ f ∈ r.failures, f.OneLine) → (∀ f ∈ t.failures, f.OneLine) →
      r.wire = t.wire → r.passed = t.passed ∧ r.failures = t.failures := by
  refine ⟨fun f g => Failure.wire_injective, ?_, ?_⟩
  · intro e
    have hdescribe : (Simulator.machine.describe e).toList = e.wire := String.toList_ofList
    rw [hdescribe]
    exact e.newline_notMem_wire
  · intro r t hr ht h
    obtain rfl := wire_injective_of_oneLine hr ht h
    exact ⟨rfl, rfl⟩

/-- A message of one line that continues another one. -/
theorem wire_unambiguous_continued :
    let quoting (message : String) : Report := ⟨1, [⟨⟨.com, 0, 0x00#8⟩, 0x9400#16, .decode message⟩]⟩
    (∀ f ∈ (quoting "a").failures, f.OneLine) ∧ (∀ f ∈ (quoting "a; b").failures, f.OneLine) ∧
      (quoting "a").wire ≠ (quoting "a; b").wire := by
  intro quoting
  have honeLine : ∀ message : String, '\n' ∉ message.toList →
      ∀ f ∈ (quoting message).failures, f.OneLine := by
    intro message hmessage f hf m hm
    obtain rfl := List.mem_singleton.mp hf
    cases hm
    exact hmessage
  have hshort := honeLine "a" (by decide)
  have hlong := honeLine "a; b" (by decide)
  refine ⟨hshort, hlong, fun h => ?_⟩
  have hfailures := (wire_unambiguous.2.2 _ _ hshort hlong h).2
  exact absurd hfailures (by decide)

/-- A message with a line end in it can look like the line of another failure. -/
example :
    let c : Case := ⟨.com, 0, 0x00#8⟩
    let quoting (message : String) : Failure := ⟨c, c.word, .decode message⟩
    (⟨0, [quoting "a\nFAIL COM_r00_v00 [0x9400]: decode failure: b", quoting "c"]⟩ : Report).wire =
      (⟨0, [quoting "a", quoting "b\nFAIL COM_r00_v00 [0x9400]: decode failure: c"]⟩ : Report).wire := by
  decide +kernel

end Report

end AvrConform
