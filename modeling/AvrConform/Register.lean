import AvrConform.Numeral
set_option autoImplicit false

namespace AvrConform

abbrev Reg := Fin 32

def Reg.all : List Reg := List.finRange 32

def Reg.ofInt? (n : Int) : Option Reg := Reg.all.find? (fun r => (r.val : Int) = n)

def Reg.wire (r : Reg) : List Char := 'r' :: decimal r.val

inductive RegId where
  | gpr : Reg → RegId
  | sreg : RegId
  | pc : RegId
  deriving DecidableEq

def RegId.all : List RegId := Reg.all.map .gpr ++ [.sreg, .pc]

def RegId.wire : RegId → List Char
  | .gpr r => r.wire
  | .sreg => "SREG".toList
  | .pc => "PC".toList

def RegId.ofWire? (cs : List Char) : Option RegId := RegId.all.find? (fun i => i.wire = cs)

theorem Reg.mem_all (r : Reg) : r ∈ Reg.all := List.mem_finRange r

theorem RegId.mem_all (i : RegId) : i ∈ RegId.all := by
  cases i with
  | gpr r => simp [RegId.all, Reg.mem_all]
  | sreg => simp [RegId.all]
  | pc => simp [RegId.all]

theorem RegId.ofWire?_sound {cs : List Char} {i : RegId} (h : RegId.ofWire? cs = some i) :
    i.wire = cs := by
  simpa using List.find?_some h

end AvrConform
