import AvrConform.Case
set_option autoImplicit false

namespace AvrConform

structure Coverage where
  seenClear : Byte := 0#8
  seenSet : Byte := 0#8
  deriving DecidableEq

namespace Coverage

def add (v : Coverage) (s : Sreg) : Coverage :=
  { seenClear := v.seenClear ||| ~~~s, seenSet := v.seenSet ||| s }

def ofList (ss : List Sreg) : Coverage := ss.foldl add {}

/-- A value that the flag was not seen to have. A flag that was never seen at all counts as not seen
clear. -/
def missing (v : Coverage) (f : Flag) : Option Bool :=
  if v.seenClear &&& f.mask = 0#8 then some false
  else if v.seenSet &&& f.mask = 0#8 then some true
  else none

def ofCases (a : Arch) (cs : List Case) : Coverage :=
  ofList (cs.map (fun c => (c.expected a (c.preset a)).sreg))

end Coverage

/-- The generated operands of an opcode never drive a flag to a value. -/
structure CoverageGap where
  opcode : Opcode
  flag : Flag
  value : Bool
  deriving DecidableEq

def CoverageGap.wire (g : CoverageGap) : List Char :=
  g.opcode.wire ++ " value set never ".toList ++ (if g.value then "sets".toList else "clears".toList) ++
    " flag ".toList ++ [g.flag.letter]

namespace Arch

def grid (a : Arch) (op : Opcode) : List Case :=
  a.regs.flatMap (fun rd => (Profile.of op).values.map (fun v => ⟨op, rd, v⟩))

/-- The first promised flag that the cases do not drive both ways. -/
def gap? (a : Arch) (op : Opcode) (cs : List Case) : Option CoverageGap :=
  let seen := Coverage.ofCases a cs
  (Profile.of op).covers.findSome? (fun f => (seen.missing f).map (fun v => ⟨op, f, v⟩))

def cases (a : Arch) (op : Opcode) : Except CoverageGap (List Case) :=
  match a.gap? op (a.grid op) with
  | some g => .error g
  | none => .ok (a.grid op)

def collect (a : Arch) : List Opcode → Except CoverageGap (List Case)
  | [] => .ok []
  | op :: rest =>
    match a.cases op, a.collect rest with
    | .error g, _ => .error g
    | .ok _, .error g => .error g
    | .ok cs, .ok more => .ok (cs ++ more)

/-- The cases of each opcode, in the order in which the opcodes first occur. -/
def matrix (a : Arch) (ops : List Opcode) : Except CoverageGap (List Case) :=
  a.collect ops.eraseDups

theorem length_grid (a : Arch) (op : Opcode) :
    (a.grid op).length = 6 * min a.registerCount 32 := by
  simp only [grid, List.length_flatMap, List.length_map, Profile.length_values, List.map_const',
    List.sum_replicate_nat, length_regs, Nat.mul_comm]

theorem mem_grid_iff (a : Arch) (op : Opcode) (c : Case) :
    c ∈ a.grid op ↔
      c.opcode = op ∧ c.rd.val < a.registerCount ∧ c.operand ∈ (Profile.of op).values := by
  obtain ⟨op', rd, v⟩ := c
  simp only [grid, List.mem_flatMap, List.mem_map, mem_regs_iff, Case.mk.injEq]
  constructor
  · rintro ⟨r, hr, w, hw, rfl, rfl, rfl⟩
    exact ⟨rfl, hr, hw⟩
  · rintro ⟨rfl, hr, hw⟩
    exact ⟨rd, hr, v, hw, rfl, rfl, rfl⟩

end Arch

end AvrConform
