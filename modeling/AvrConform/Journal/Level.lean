set_option autoImplicit false

namespace AvrConform

inductive Level where
  | error | warn | info | debug | trace
  deriving DecidableEq

namespace Level

def all : List Level := [.error, .warn, .info, .debug, .trace]

def rank : Level → Nat
  | .error => 1
  | .warn => 2
  | .info => 3
  | .debug => 4
  | .trace => 5

def wire : Level → List Char
  | .error => "error".toList
  | .warn => "warn".toList
  | .info => "info".toList
  | .debug => "debug".toList
  | .trace => "trace".toList

def ofWire? (cs : List Char) : Option Level := all.find? (fun l => l.wire = cs)

/-- Without a limit nothing is written; a limit admits its own level and all more severe ones. -/
def admittedBy (limit : Option Level) (l : Level) : Bool :=
  match limit with
  | none => false
  | some bound => l.rank ≤ bound.rank

def readLimit? (cs : List Char) : Option (Option Level) :=
  if cs = "off".toList then some none else (ofWire? cs).map some

end Level

end AvrConform
