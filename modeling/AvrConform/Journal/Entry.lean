import AvrConform.Machine.Event
import AvrConform.Coverage
import AvrConform.Failure
set_option autoImplicit false

namespace AvrConform

inductive Entry where
  | machine : Machine.Event → Entry
  | generated : Opcode → Nat → Entry
  | started : Case → Word → Entry
  | passed : Case → Entry
  | failed : Failure → Entry
  | finished : Nat → Nat → Entry
  deriving DecidableEq

namespace Entry

def level : Entry → Level
  | .machine e => e.level
  | .generated _ _ => .debug
  | .started _ _ => .debug
  | .passed _ => .debug
  | .failed _ => .warn
  | .finished _ _ => .info

def wire : Entry → List Char
  | .machine e => e.wire
  | .generated op n => op.wire ++ ": generated ".toList ++ decimal n ++ " cases".toList
  | .started c pc => c.name ++ ": ".toList ++ c.instruction.wire ++ " at ".toList ++ pc.wire
  | .passed c => c.name ++ ": pass".toList
  | .failed f => f.wire
  | .finished p q =>
    decimal (p + q) ++ " cases: ".toList ++ decimal p ++ " passed, ".toList ++ decimal q ++
      " failed".toList

def admitted (limit : Option Level) (es : List Entry) : List (Level × List Char) :=
  (es.filter (fun e => e.level.admittedBy limit)).map (fun e => (e.level, e.wire))

theorem admitted_append (limit : Option Level) (es fs : List Entry) :
    admitted limit (es ++ fs) = admitted limit es ++ admitted limit fs := by
  simp [admitted]

end Entry

namespace Arch

def collectEntries (a : Arch) : List Opcode → List Entry
  | [] => []
  | op :: rest =>
    match a.cases op with
    | .error _ => []
    | .ok cs => .generated op cs.length :: a.collectEntries rest

def matrixEntries (a : Arch) (ops : List Opcode) : List Entry := a.collectEntries ops.eraseDups

end Arch

end AvrConform
