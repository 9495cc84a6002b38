import AvrConform.Register
set_option autoImplicit false

/-! The single register instructions and their words, 1001 010d dddd oooo, beside the word of zeros,
which does nothing. `decode_encode` says that every instruction is read back from its word. -/

namespace AvrConform

inductive Opcode where
  | com | neg | swap | inc | asr | lsr | ror | dec
  deriving DecidableEq

namespace Opcode

def all : List Opcode := [.com, .neg, .swap, .inc, .asr, .lsr, .ror, .dec]

def wire : Opcode → List Char
  | .com => "com".toList
  | .neg => "neg".toList
  | .swap => "swap".toList
  | .inc => "inc".toList
  | .asr => "asr".toList
  | .lsr => "lsr".toList
  | .ror => "ror".toList
  | .dec => "dec".toList

def mnemonic (op : Opcode) : List Char := op.wire.map Char.toUpper

def code : Opcode → Nat
  | .com => 0x0
  | .neg => 0x1
  | .swap => 0x2
  | .inc => 0x3
  | .asr => 0x5
  | .lsr => 0x6
  | .ror => 0x7
  | .dec => 0xa

def template (op : Opcode) : Word := 0x9400#16 ||| BitVec.ofNat 16 op.code

def ofInt? (n : Int) : Option Opcode := all.find? (fun op => (op.code : Int) = n)

def ofWord? (w : Word) : Option Opcode :=
  if w &&& 0xfe00#16 = 0x9400#16 then all.find? (fun op => op.code = (w &&& 0x000f#16).toNat)
  else none

/-- Equality of texts up to the case of the letters A to Z; no other character has a second case. -/
def sameLetters (cs ds : List Char) : Bool := cs.map Char.toLower = ds.map Char.toLower

def ofWire? (cs : List Char) : Option Opcode := all.find? (fun op => op.wire = cs)

structure Unknown where
  name : List Char
  deriving DecidableEq

def Unknown.wire (e : Unknown) : List Char := "unknown opcode \"".toList ++ e.name ++ ['"']

def parse (cs : List Char) : Except Unknown Opcode :=
  match all.find? (fun op => sameLetters op.mnemonic cs) with
  | some op => .ok op
  | none => .error ⟨cs⟩

theorem mem_all (op : Opcode) : op ∈ all := by cases op <;> decide

theorem code_lt (op : Opcode) : op.code < 16 := by cases op <;> decide

theorem code_injective {op op' : Opcode} (h : op.code = op'.code) : op = op' := by
  cases op <;> cases op' <;> simp_all [code]

theorem toLower_mnemonic (op : Opcode) : op.mnemonic.map Char.toLower = op.wire := by
  cases op <;> decide

theorem toLower_wire (op : Opcode) : op.wire.map Char.toLower = op.wire := by
  cases op <;> decide

theorem wire_injective {op op' : Opcode} (h : op.wire = op'.wire) : op = op' := by
  cases op <;> cases op' <;> simp_all [wire]

theorem sameLetters_mnemonic_iff (op : Opcode) (cs : List Char) :
    sameLetters op.mnemonic cs = true ↔ cs.map Char.toLower = op.wire := by
  rw [sameLetters, decide_eq_true_iff, toLower_mnemonic]
  exact eq_comm

end Opcode

inductive Instruction where
  | nop : Instruction
  | unary : Opcode → Reg → Instruction
  deriving DecidableEq

namespace Instruction

def encode : Instruction → Word
  | .nop => 0#16
  | .unary op rd => op.template ||| (BitVec.ofNat 16 rd.val <<< 4)

def size : Instruction → Word
  | .nop => 1#16
  | .unary _ _ => 1#16

def wire : Instruction → List Char
  | .nop => "nop".toList
  | .unary op rd => op.wire ++ ['\t'] ++ rd.wire

/-- Bits 4 to 8 of a word, which name a register. -/
def rdField (w : Word) : Reg := Fin.ofNat 32 (w >>> 4).toNat

def readNop (w : Word) : Option Instruction := if w = 0#16 then some .nop else none

def readUnary (w : Word) : Option Instruction :=
  (Opcode.ofWord? w).map (fun op => .unary op (rdField w))

def readers : List (Word → Option Instruction) := [readNop, readUnary]

def decode (w : Word) : Option Instruction := readers.findSome? (fun read => read w)

theorem rdField_encode (op : Opcode) (rd : Reg) : rdField (encode (.unary op rd)) = rd := by
  cases op <;> revert rd <;> decide

theorem ofWord?_encode (op : Opcode) (rd : Reg) :
    Opcode.ofWord? (encode (.unary op rd)) = some op := by
  cases op <;> revert rd <;> decide

theorem encode_unary_ne_zero (op : Opcode) (rd : Reg) : encode (.unary op rd) ≠ 0#16 := by
  cases op <;> revert rd <;> decide

@[simp] theorem decode_encode (i : Instruction) : decode i.encode = some i := by
  cases i with
  | nop => rfl
  | unary op rd =>
    simp [decode, readers, readNop, readUnary, encode_unary_ne_zero, ofWord?_encode,
      rdField_encode]

end Instruction

end AvrConform
