import Mathlib
import AvrConform.Instruction
set_option autoImplicit false

/-! Mnemonics as they are read. A text names an opcode when it spells the opcode's name letter by letter, each
letter in either case. No name occurs inside another one, so at most one opcode fits a text, nothing may
stand before or behind a name, and a text that names none is quoted in the error as it is. -/

namespace AvrConform

/-- A small letter is also the case-folded form of its capital, and of no third character. -/
theorem toLower_eq_iff {c l : Char} (hl : l.isLower) : c.toLower = l ↔ c = l ∨ c = l.toUpper := by
  have hsmall : l.toLower = l := Char.toLower_eq_of_not_isUpper (Char.not_isUpper_of_isLower hl)
  constructor
  · rintro rfl
    by_cases hc : c.isUpper
    · right
      rw [Char.toUpper_toLower_eq_toUpper,
        Char.toUpper_eq_of_not_isLower (Char.not_isLower_of_isUpper hc)]
    · exact Or.inl (Char.toLower_eq_of_not_isUpper hc).symm
  · rintro (rfl | rfl)
    · exact hsmall
    · rw [Char.toLower_toUpper_eq_toLower, hsmall]

/-- Letter by letter, each in either case. -/
def Spells (cs letters : List Char) : Prop := List.Forall₂ (fun c l => c = l ∨ c = l.toUpper) cs letters

theorem spells_cons {c l : Char} {cs letters : List Char} :
    Spells (c :: cs) (l :: letters) ↔ (c = l ∨ c = l.toUpper) ∧ Spells cs letters := List.forall₂_cons

theorem map_toLower_eq_iff {cs letters : List Char} (h : ∀ l ∈ letters, l.isLower) :
    cs.map Char.toLower = letters ↔ Spells cs letters := by
  induction letters generalizing cs with
  | nil => simp [Spells]
  | cons l letters ih =>
    have hrest : ∀ k ∈ letters, k.isLower := fun k hk => h k (List.mem_cons_of_mem l hk)
    cases cs with
    | nil => simp [Spells]
    | cons c cs =>
      rw [List.map_cons, List.cons_eq_cons, toLower_eq_iff (h l List.mem_cons_self), ih hrest, spells_cons]

namespace Opcode

theorem isLower_of_mem_wire {op : Opcode} {l : Char} (h : l ∈ op.wire) : l.isLower := by
  have hletters : op.wire.all Char.isLower = true := by
    cases op <;> rfl
  exact List.all_eq_true.mp hletters l h

theorem eq_of_wire_infix {op o : Opcode} (h : op.wire <:+: o.wire) : op = o := by
  revert h
  cases op <;> cases o <;> decide

def search (ops : List Opcode) (cs : List Char) : Except Unknown Opcode :=
  match ops.find? (fun op => sameLetters op.mnemonic cs) with
  | some op => .ok op
  | none => .error ⟨cs⟩

theorem parse_eq_search (cs : List Char) : parse cs = search all cs := rfl

theorem search_eq_ok_iff {ops : List Opcode} {cs : List Char} {op : Opcode} :
    search ops cs = .ok op ↔ op ∈ ops ∧ cs.map Char.toLower = op.wire := by
  rw [search]
  cases hfind : ops.find? (fun op => sameLetters op.mnemonic cs) with
  | none =>
    have hnone := List.find?_eq_none.mp hfind
    simp only [sameLetters_mnemonic_iff] at hnone
    exact ⟨nofun, fun h => absurd h.2 (hnone op h.1)⟩
  | some o =>
    have ho := List.find?_some hfind
    simp only [sameLetters_mnemonic_iff] at ho
    constructor
    · rintro ⟨⟩
      exact ⟨List.mem_of_find?_eq_some hfind, ho⟩
    · rintro ⟨-, hop⟩
      rw [wire_injective (ho.symm.trans hop)]

theorem search_eq_error_iff {ops : List Opcode} {cs : List Char} {e : Unknown} :
    search ops cs = .error e ↔ e = ⟨cs⟩ ∧ ∀ op ∈ ops, cs.map Char.toLower ≠ op.wire := by
  cases hsearch : search ops cs with
  | ok op =>
    obtain ⟨hop, hcs⟩ := search_eq_ok_iff.mp hsearch
    exact ⟨nofun, fun h => absurd hcs (h.2 op hop)⟩
  | error e' =>
    have hnone : ∀ op ∈ ops, cs.map Char.toLower ≠ op.wire := by
      intro op hop hcs
      rw [search_eq_ok_iff.mpr ⟨hop, hcs⟩] at hsearch
      cases hsearch
    have he' : e' = ⟨cs⟩ := by
      rw [search] at hsearch
      split at hsearch <;> cases hsearch
      rfl
    rw [he', Except.error.injEq]
    exact ⟨fun h => ⟨h.symm, hnone⟩, fun h => h.1.symm⟩

theorem search_congr {ops ops' : List Opcode} (h : ∀ op, op ∈ ops ↔ op ∈ ops') (cs : List Char) :
    search ops cs = search ops' cs := by
  cases hsearch : search ops' cs with
  | ok op => rwa [search_eq_ok_iff, h, ← search_eq_ok_iff]
  | error e =>
    rw [search_eq_error_iff] at hsearch ⊢
    exact ⟨hsearch.1, fun op hop => hsearch.2 op ((h op).mp hop)⟩

theorem parse_eq_ok_iff {cs : List Char} {op : Opcode} :
    parse cs = .ok op ↔ cs.map Char.toLower = op.wire := by
  rw [parse_eq_search, search_eq_ok_iff]
  exact and_iff_right op.mem_all

theorem parse_eq_ok_iff_spells {cs : List Char} {op : Opcode} :
    parse cs = .ok op ↔ Spells cs op.wire := by
  rw [parse_eq_ok_iff, map_toLower_eq_iff (fun _ h => isLower_of_mem_wire h)]

theorem parse_eq_error_iff {cs : List Char} {e : Unknown} :
    parse cs = .error e ↔ e = ⟨cs⟩ ∧ ∀ op : Opcode, cs.map Char.toLower ≠ op.wire := by
  rw [parse_eq_search, search_eq_error_iff]
  exact and_congr_right fun _ => ⟨fun h op => h op op.mem_all, fun h op _ => h op⟩

theorem isAlpha_of_parse {cs : List Char} {op : Opcode} (h : parse cs = .ok op) {c : Char}
    (hc : c ∈ cs) : c.isAlpha := by
  have hmem : c.toLower ∈ op.wire := parse_eq_ok_iff.mp h ▸ List.mem_map_of_mem hc
  rw [← Char.isLower_toLower_eq_isAlpha]
  exact isLower_of_mem_wire hmem

theorem eq_nil_of_parse_append {cs before after : List Char} {op o : Opcode} (h : parse cs = .ok op)
    (ho : parse (before ++ cs ++ after) = .ok o) : before = [] ∧ after = [] := by
  rw [parse_eq_ok_iff] at h ho
  rw [List.map_append, List.map_append, h] at ho
  obtain rfl : op = o := eq_of_wire_infix ⟨_, _, ho⟩
  have hlength := congrArg List.length ho
  simp only [List.length_append, List.length_map] at hlength
  exact ⟨List.length_eq_zero_iff.mp (by omega), List.length_eq_zero_iff.mp (by omega)⟩

theorem Unknown.wire_injective {e e' : Unknown} (h : e.wire = e'.wire) : e = e' := by
  have hname : e.name = e'.name := List.append_cancel_left (List.append_cancel_right h)
  cases e
  cases e'
  cases hname
  rfl

theorem parse_exact (cs : List Char) :
    (∀ op, parse cs = .ok op ↔ cs.map Char.toLower = op.wire) ∧
    (∀ op, parse cs = .ok op ↔ Spells cs op.wire) ∧
    (∀ op : Opcode, parse op.wire = .ok op ∧ parse op.mnemonic = .ok op) ∧
    (∀ ops : List Opcode, ops.Perm all → search ops cs = parse cs) ∧
    (∀ op, parse cs = .ok op → (∀ c ∈ cs, c.isAlpha) ∧
      ∀ before after o, parse (before ++ cs ++ after) = .ok o → before = [] ∧ after = []) ∧
    (∀ e, parse cs = .error e ↔ e = ⟨cs⟩ ∧ ∀ op : Opcode, cs.map Char.toLower ≠ op.wire) ∧
    (∀ e, parse cs = .error e → e.wire = "unknown opcode \"".toList ++ cs ++ "\"".toList) ∧
    ∀ ds e e', parse cs = .error e → parse ds = .error e' → cs ≠ ds → e.wire ≠ e'.wire := by
  refine ⟨fun _ => parse_eq_ok_iff, fun _ => parse_eq_ok_iff_spells, fun op => ?_, fun ops h => ?_,
    fun op h => ⟨fun c hc => isAlpha_of_parse h hc, fun _ _ _ ho => eq_nil_of_parse_append h ho⟩,
    fun _ => parse_eq_error_iff, fun e h => ?_, fun ds e e' h h' hne hwire => ?_⟩
  · exact ⟨parse_eq_ok_iff.mpr op.toLower_wire, parse_eq_ok_iff.mpr op.toLower_mnemonic⟩
  · exact search_congr (fun _ => h.mem_iff) cs
  · rw [(parse_eq_error_iff.mp h).1]
    rfl
  · have he := Unknown.wire_injective hwire
    rw [(parse_eq_error_iff.mp h).1, (parse_eq_error_iff.mp h').1] at he
    exact hne (congrArg Unknown.name he)

/-- A mixture of cases, with the opcodes in another order; a blank behind the name; and the long s, whose
capital is the letter S. -/
theorem parse_exact_swap :
    parse "sWaP".toList = .ok .swap ∧
      all.reverse.Perm all ∧ search all.reverse "sWaP".toList = .ok .swap ∧
      parse "sWaP ".toList = .error ⟨"sWaP ".toList⟩ ∧
      parse "a\u017fr".toList = .error ⟨"a\u017fr".toList⟩ ∧
      Unknown.wire ⟨"sWaP ".toList⟩ ≠ Unknown.wire ⟨"a\u017fr".toList⟩ := by
  obtain ⟨hswap, -, -, horder, -⟩ := parse_exact "sWaP".toList
  obtain ⟨-, -, -, -, -, hblank, -, hdiffer⟩ := parse_exact "sWaP ".toList
  obtain ⟨-, -, -, -, -, hlook, -⟩ := parse_exact "a\u017fr".toList
  have hread : parse "sWaP".toList = .ok .swap := (hswap .swap).mpr (by decide)
  have hperm : all.reverse.Perm all := List.reverse_perm all
  have hblank' := (hblank ⟨"sWaP ".toList⟩).mpr ⟨rfl, fun op => by cases op <;> decide⟩
  have hlook' := (hlook ⟨"a\u017fr".toList⟩).mpr ⟨rfl, fun op => by cases op <;> decide⟩
  exact ⟨hread, hperm, (horder _ hperm).trans hread, hblank', hlook',
    hdiffer _ _ _ hblank' hlook' (by decide)⟩

end Opcode

end AvrConform
