import AvrConform.Proofs.Unambiguous
set_option autoImplicit false

/-! Lines of the journal read back. A reader looks at how a line begins and proposes an event, and the line
is then compared with what is written for that event. So nothing else is read, and `Machine.Event.ofWire?_wire`
says that every event is read back from its line. -/

namespace AvrConform

theorem find?_wire {α : Type} {wire : α → List Char} (hinj : ∀ x y, wire x = wire y → x = y)
    {xs : List α} {x : α} (hx : x ∈ xs) : xs.find? (fun y => wire y = wire x) = some x := by
  cases hfind : xs.find? (fun y => decide (wire y = wire x)) with
  | none => simpa using List.find?_eq_none.mp hfind x hx
  | some y =>
    have hy : wire y = wire x := by simpa using List.find?_some hfind
    rw [hinj y x hy]

def readHex (digits : Nat) (cs : List Char) : Nat × List Char :=
  (numeralValue 16 ((cs.drop 2).take digits), cs.drop (2 + digits))

theorem readHex_append {digits n : Nat} (hdigits : 0 < digits) (hn : n < 16 ^ digits) (s : List Char) :
    readHex digits (hex digits n ++ s) = (n, s) := by
  have hlength : (numeral 16 digits n).length = digits := length_numeral (by decide) hdigits hn
  have hmark : (hex digits n ++ s).drop 2 = numeral 16 digits n ++ s := rfl
  rw [readHex, ← List.drop_drop, hmark, List.take_left' hlength, List.drop_left' hlength,
    numeralValue_numeral (by decide) (by decide)]

def Byte.read (cs : List Char) : Byte × List Char :=
  let (n, rest) := readHex 2 cs
  (BitVec.ofNat 8 n, rest)

@[simp] theorem Byte.read_wire_append (b : Byte) (s : List Char) : Byte.read (b.wire ++ s) = (b, s) := by
  simp [Byte.read, Byte.wire, readHex_append, b.isLt]

def Word.read (cs : List Char) : Word × List Char :=
  let (n, rest) := readHex 4 cs
  (BitVec.ofNat 16 n, rest)

@[simp] theorem Word.read_wire_append (w : Word) (s : List Char) : Word.read (w.wire ++ s) = (w, s) := by
  simp [Word.read, Word.wire, readHex_append, w.isLt]

theorem Word.read_wire (w : Word) : Word.read w.wire = (w, []) := by
  rw [← Word.read_wire_append w [], List.append_nil]

theorem RegId.wire_injective {i j : RegId} (h : i.wire = j.wire) : i = j :=
  (wire_append_inj (s := []) (t := []) trivial trivial (by simpa using h)).1

@[simp] theorem RegId.ofWire?_wire (i : RegId) : RegId.ofWire? i.wire = some i :=
  find?_wire (fun _ _ => wire_injective) i.mem_all

namespace Sreg

def all : List Sreg := (List.range 256).map (BitVec.ofNat 8)

def ofWire? (cs : List Char) : Option Sreg := all.find? (fun s => s.wire = cs)

theorem mem_all (s : Sreg) : s ∈ all :=
  List.mem_map.mpr ⟨s.toNat, List.mem_range.mpr s.isLt, by simp⟩

/-- Each letter has a place of its own, and a dash is no letter. -/
theorem wire_injective {s t : Sreg} (h : s.wire = t.wire) : s = t := by
  apply ext_get
  intro f
  have hplace : ∀ b c : Bool,
      (if b then f.letter else '-') = (if c then f.letter else '-') → b = c := by
    cases f <;> decide
  exact hplace _ _ (List.map_inj_left.mp h f (List.mem_reverse.mpr f.mem_all))

@[simp] theorem ofWire?_wire (s : Sreg) : ofWire? s.wire = some s :=
  find?_wire (fun _ _ => wire_injective) s.mem_all

end Sreg

namespace Instruction

def all : List Instruction := .nop :: Opcode.all.flatMap (fun op => Reg.all.map (.unary op))

def ofWire? (cs : List Char) : Option Instruction := all.find? (fun i => i.wire = cs)

theorem mem_all (i : Instruction) : i ∈ all := by
  cases i with
  | nop => exact List.mem_cons_self
  | unary op rd =>
    exact List.mem_cons_of_mem _
      (List.mem_flatMap.mpr ⟨op, op.mem_all, List.mem_map_of_mem rd.mem_all⟩)

theorem wire_injective {i j : Instruction} (h : i.wire = j.wire) : i = j := by
  have htab : ∀ op : Opcode, '\t' ∉ op.wire := by
    intro op
    cases op <;> decide
  have hnop : ∀ op rd, Instruction.nop.wire ≠ (unary op rd).wire := by
    intro op rd h
    have hmem : '\t' ∈ (unary op rd).wire := by simp [wire]
    rw [← h] at hmem
    exact absurd hmem (by decide)
  cases i with
  | nop =>
    cases j with
    | nop => rfl
    | unary o q => exact absurd h (hnop o q)
  | unary op rd =>
    cases j with
    | nop => exact absurd h.symm (hnop op rd)
    | unary o q =>
      have hbehind : ∀ u, StartsOutside (fun c => c != '\t') ('\t' :: u) := fun _ => rfl
      simp only [wire, List.append_assoc] at h
      obtain ⟨hop, hrest⟩ := append_inj_of_notMem (htab op) (htab o) (hbehind _) (hbehind _) h
      have hrd : RegId.gpr rd = .gpr q := RegId.wire_injective (List.cons.inj hrest).2
      rw [Opcode.wire_injective hop, RegId.gpr.inj hrd]

@[simp] theorem ofWire?_wire (i : Instruction) : ofWire? i.wire = some i :=
  find?_wire (fun _ _ => wire_injective) i.mem_all

end Instruction

namespace Machine.Event

def readFlash (cs : List Char) : Option Event :=
  let (w, rest) := Word.read cs
  let (a, _) := Word.read (rest.drop " to ".length)
  some (.flashWritten a w)

def readRegister (cs : List Char) : Option Event :=
  let (v, rest) := Byte.read cs
  match RegId.ofWire? (rest.drop " to ".length) with
  | some (.gpr r) => some (.registerWritten r v)
  | _ => none

def readCounter (cs : List Char) : Option Event := some (.counterWritten (Word.read cs).1)

def readStatus (event : Sreg → Event) (cs : List Char) : Option Event := (Sreg.ofWire? cs).map event

def readExecution (cs : List Char) : Option Event :=
  let (pc, rest) := Word.read cs
  (Instruction.ofWire? (rest.drop ": ".length)).map (.executing pc)

/-- How a line goes on, by how it begins. Where one beginning continues another one it comes first. -/
def readers : List (String × (List Char → Option Event)) :=
  [("Flash: writing ", readFlash),
    ("Reg: writing ", readRegister),
    ("PC: set to ", readCounter),
    ("SREG: set to ", readStatus .statusWritten),
    ("PC: ", readExecution),
    ("SREG: ", readStatus .statusLeft)]

def guess? (cs : List Char) : Option Event :=
  (readers.findSome? (fun (start, read) => (start.toList.isPrefixOf? cs).map read)).join

def ofWire? (cs : List Char) : Option Event := (guess? cs).filter (fun e => e.wire = cs)

theorem ofWire?_sound {cs : List Char} {e : Event} (h : ofWire? cs = some e) : e.wire = cs := by
  simpa using (Option.filter_eq_some_iff.mp h).2

section Beginning

variable (cs : List Char)

theorem guess?_flash : guess? ("Flash: writing ".toList ++ cs) = readFlash cs := rfl

theorem guess?_register : guess? ("Reg: writing ".toList ++ cs) = readRegister cs := rfl

theorem guess?_counter : guess? ("PC: set to ".toList ++ cs) = readCounter cs := rfl

theorem guess?_status : guess? ("SREG: set to ".toList ++ cs) = readStatus .statusWritten cs := rfl

/-- The mark of the number tells this line from the one that reports a new counter. -/
theorem guess?_execution (n : Nat) :
    guess? ("PC: ".toList ++ (hex 4 n ++ cs)) = readExecution (hex 4 n ++ cs) := rfl

/-- A rendering starts with a capital or a dash, so the line is not taken for the one before. -/
theorem guess?_statusLeft (s : Sreg) :
    guess? ("SREG: ".toList ++ s.wire) = readStatus .statusLeft s.wire := by
  have hwire : s.wire = (if s.get .interrupt then 'I' else '-') ::
      Flag.all.reverse.tail.map (fun f => if s.get f then f.letter else '-') := rfl
  rw [hwire]
  cases s.get .interrupt
  · rfl
  · rfl

end Beginning

theorem readFlash_wire (a w : Word) :
    readFlash (w.wire ++ (" to ".toList ++ a.wire)) = some (.flashWritten a w) := by
  have hrest : (" to ".toList ++ a.wire).drop " to ".length = a.wire := rfl
  simp only [readFlash, Word.read_wire_append, Word.read_wire, hrest]

theorem readRegister_wire (r : Reg) (v : Byte) :
    readRegister (v.wire ++ (" to ".toList ++ r.wire)) = some (.registerWritten r v) := by
  have hrest : (" to ".toList ++ r.wire).drop " to ".length = (RegId.gpr r).wire := rfl
  simp only [readRegister, Byte.read_wire_append, hrest, RegId.ofWire?_wire]

theorem readExecution_wire (pc : Word) (i : Instruction) :
    readExecution (pc.wire ++ (": ".toList ++ i.wire)) = some (.executing pc i) := by
  have hrest : (": ".toList ++ i.wire).drop ": ".length = i.wire := rfl
  simp only [readExecution, Word.read_wire_append, hrest, Instruction.ofWire?_wire, Option.map_some]

theorem guess?_wire (e : Event) : guess? e.wire = some e := by
  cases e with
  | flashWritten a w =>
    have hwire : wire (.flashWritten a w) =
        "Flash: writing ".toList ++ w.wire ++ " to ".toList ++ a.wire := rfl
    rw [hwire, List.append_assoc, List.append_assoc, guess?_flash, readFlash_wire]
  | registerWritten r v =>
    have hwire : wire (.registerWritten r v) =
        "Reg: writing ".toList ++ v.wire ++ " to ".toList ++ r.wire := rfl
    rw [hwire, List.append_assoc, List.append_assoc, guess?_register, readRegister_wire]
  | counterWritten pc =>
    have hwire : wire (.counterWritten pc) = "PC: set to ".toList ++ pc.wire := rfl
    rw [hwire, guess?_counter, readCounter, Word.read_wire]
  | statusWritten s =>
    have hwire : wire (.statusWritten s) = "SREG: set to ".toList ++ s.wire := rfl
    rw [hwire, guess?_status, readStatus, Sreg.ofWire?_wire, Option.map_some]
  | executing pc i =>
    have hwire : wire (.executing pc i) =
        "PC: ".toList ++ hex 4 pc.toNat ++ ": ".toList ++ i.wire := rfl
    rw [hwire, List.append_assoc, List.append_assoc, guess?_execution]
    exact readExecution_wire pc i
  | statusLeft s =>
    have hwire : wire (.statusLeft s) = "SREG: ".toList ++ s.wire := rfl
    rw [hwire, guess?_statusLeft, readStatus, Sreg.ofWire?_wire, Option.map_some]

@[simp] theorem ofWire?_wire (e : Event) : ofWire? e.wire = some e := by
  rw [ofWire?, guess?_wire]
  simp

theorem ofWire?_eq_some_iff {cs : List Char} {e : Event} : ofWire? cs = some e ↔ e.wire = cs :=
  ⟨ofWire?_sound, fun h => h ▸ ofWire?_wire e⟩

end Machine.Event

end AvrConform
