import AvrConform.Oracle
import AvrConform.RegisterFile
set_option autoImplicit false

namespace AvrConform

structure Profile where
  /-- Operands, chosen so that every flag in `covers` is seen both clear and set. -/
  values : List Byte
  preset : Sreg := 0#8
  /-- The written flags that depend on the operand when the carry is clear at the start. -/
  covers : List Flag

def Profile.of : Opcode → Profile
  | .com => {
      values := [0x00#8, 0xff#8, 0xaa#8, 0x55#8, 0x0f#8, 0xf0#8]
      covers := [.zero, .negative, .sign] }
  | .neg => {
      values := [0x00#8, 0xff#8, 0xaa#8, 0xf0#8, 0x01#8, 0x80#8]
      covers := [.carry, .zero, .negative, .overflow, .sign, .halfCarry] }
  | .swap => {
      values := [0x00#8, 0xff#8, 0x0f#8, 0xf0#8, 0xa5#8, 0x12#8]
      covers := [] }
  | .inc => {
      values := [0x00#8, 0xff#8, 0x7f#8, 0x80#8, 0xaa#8, 0x0f#8]
      covers := [.zero, .negative, .overflow, .sign] }
  | .asr => {
      values := [0x00#8, 0x01#8, 0x80#8, 0x81#8, 0xfe#8, 0x7f#8]
      covers := [.carry, .zero, .negative, .overflow, .sign] }
  | .lsr => {
      values := [0x00#8, 0x01#8, 0x02#8, 0xff#8, 0xaa#8, 0x80#8]
      covers := [.carry, .zero, .overflow, .sign] }
  | .ror => {
      values := [0x00#8, 0x01#8, 0x02#8, 0xff#8, 0xaa#8, 0x80#8]
      covers := [.carry, .zero, .overflow, .sign] }
  | .dec => {
      values := [0x01#8, 0x00#8, 0x80#8, 0x7f#8, 0xaa#8, 0x10#8]
      covers := [.zero, .negative, .overflow, .sign] }

theorem Profile.length_values (op : Opcode) : (Profile.of op).values.length = 6 := by
  cases op <;> rfl

theorem Profile.nodup_values (op : Opcode) : (Profile.of op).values.Nodup := by
  cases op <;> decide

theorem Profile.covers_subset (op : Opcode) : (Profile.of op).covers ⊆ Oracle.writes op := by
  cases op <;> decide

structure Case where
  opcode : Opcode
  rd : Reg
  operand : Byte
  deriving DecidableEq

def startPc : Word := 0x0100#16

/-- What a register that a case does not use is filled with: a value of its own, and never zero, so
that a stray write shows. -/
def background (r : Reg) : Byte := BitVec.ofNat 8 r.val * 0x1d#8 ^^^ 0xa5#8

theorem background_ne_zero (r : Reg) : background r ≠ 0#8 := by
  revert r
  decide

theorem background_injective {r q : Reg} (h : background r = background q) : r = q := by
  revert r q
  decide

namespace Case

/-- The name of a case, such as `NEG_r05_v80`. -/
def name (c : Case) : List Char :=
  c.opcode.mnemonic ++ "_r".toList ++ numeral 10 2 c.rd.val ++
    "_v".toList ++ numeral 16 2 c.operand.toNat

def instruction (c : Case) : Instruction := .unary c.opcode c.rd

def word (c : Case) : Word := c.instruction.encode

def profile (c : Case) : Profile := Profile.of c.opcode

/-- The whole register file is preset, not only the operand and the status register. -/
def preset (a : Arch) (c : Case) : RegisterFile :=
  let filled := a.regs.foldl (fun f r => f.setReg r (background r)) RegisterFile.zero
  { filled.setReg c.rd c.operand with sreg := c.profile.preset, pc := startPc }

/-- The register file after the instruction. Control flags come from the file it starts from,
whatever the opcode computes. -/
def expected (a : Arch) (c : Case) (before : RegisterFile) : RegisterFile :=
  let out := Oracle.expected c.opcode (before.reg c.rd) before.sreg
  { before.setReg c.rd out.1 with
    sreg := (out.2 &&& ~~~a.controlMask) ||| (before.sreg &&& a.controlMask)
    pc := a.nextPc before.pc }

def touches (c : Case) : RegId → Bool
  | .gpr r => r = c.rd
  | .sreg => !(Oracle.writes c.opcode).isEmpty
  | .pc => true

def isNamed (pattern : List Char) (c : Case) : Bool := occurs pattern c.name
where
  occurs (pattern : List Char) : List Char → Bool
    | [] => pattern.isEmpty
    | ch :: rest => pattern.isPrefixOf (ch :: rest) || occurs pattern rest

theorem occurs_iff (pattern text : List Char) :
    isNamed.occurs pattern text = true ↔ pattern <:+: text := by
  induction text with
  | nil => simp [isNamed.occurs]
  | cons ch rest ih => simp [isNamed.occurs, ih, List.infix_cons_iff]

end Case

end AvrConform
