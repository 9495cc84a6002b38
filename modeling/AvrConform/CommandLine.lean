import AvrConform.Bench
set_option autoImplicit false

/-! The command line: the options, how arguments are read into them, and what a run prints and returns.
`--opcode V` may be repeated, `--filter V` and `--list` may not; a value may also follow an equals
sign. There are no other arguments, and nothing may follow `--`. -/

namespace AvrConform

inductive ValueOption where
  | opcode | filter
  deriving DecidableEq

def ValueOption.wire : ValueOption → List Char
  | .opcode => "--opcode".toList
  | .filter => "--filter".toList

def ValueOption.ofWire? (cs : List Char) : Option ValueOption :=
  [ValueOption.opcode, ValueOption.filter].find? (fun o => o.wire = cs)

def listOption : List Char := "--list".toList

structure Options where
  /-- None stand for the whole group. -/
  opcodes : List Opcode := []
  filter : Option (List Char) := none
  list : Bool := false

inductive UsageError where
  | unexpected : List Char → UsageError
  | repeated : List Char → UsageError
  | missingValue : ValueOption → UsageError
  | unknownOpcode : Opcode.Unknown → UsageError

def UsageError.wire : UsageError → List Char
  | .unexpected arg => "unexpected argument ".toList ++ arg
  | .repeated option => option ++ " was given twice".toList
  | .missingValue o => o.wire ++ " needs a value".toList
  | .unknownOpcode e => e.wire

namespace Options

def giveList (o : Options) : Except UsageError Options :=
  if o.list then .error (.repeated listOption) else .ok { o with list := true }

def give (o : Options) (v : ValueOption) (text : List Char) : Except UsageError Options :=
  match v with
  | .opcode =>
    match Opcode.parse text with
    | .error e => .error (.unknownOpcode e)
    | .ok op => .ok { o with opcodes := o.opcodes ++ [op] }
  | .filter =>
    match o.filter with
    | some _ => .error (.repeated v.wire)
    | none => .ok { o with filter := some text }

inductive Awaiting where
  | option : Awaiting
  | value : ValueOption → Awaiting
  | nothing : Awaiting

/-- An argument that starts with a dash is no value, except the dash alone. -/
def isValue : List Char → Bool
  | ['-'] => true
  | '-' :: _ => false
  | _ => true

def readOption (o : Options) (arg : List Char) : Except UsageError (Options × Awaiting) :=
  if arg = "--".toList then .ok (o, .nothing)
  else if arg = listOption then o.giveList.map (fun o => (o, .option))
  else
    let name := arg.takeWhile (fun c => c ≠ '=')
    match ValueOption.ofWire? name, arg.drop name.length with
    | none, _ => .error (.unexpected arg)
    | some v, [] => .ok (o, .value v)
    | some v, _ :: text => (o.give v text).map (fun o => (o, .option))

def readArg (reading : Options × Awaiting) (arg : List Char) :
    Except UsageError (Options × Awaiting) :=
  match reading with
  | (o, .option) => o.readOption arg
  | (o, .value v) =>
    if isValue arg then (o.give v arg).map (fun o => (o, .option)) else .error (.missingValue v)
  | (_, .nothing) => .error (.unexpected arg)

def parse (args : List (List Char)) : Except UsageError Options :=
  match args.foldlM readArg (({} : Options), .option) with
  | .error e => .error e
  | .ok (_, .value v) => .error (.missingValue v)
  | .ok (o, _) => .ok o

def selected (o : Options) : List Opcode := if o.opcodes.isEmpty then Opcode.all else o.opcodes

def keep (o : Options) (cs : List Case) : List Case :=
  match o.filter with
  | none => cs
  | some pattern => cs.filter (fun c => c.isNamed pattern)

end Options

structure Outcome where
  status : Nat
  output : List Char := []
  complaint : List Char := []

def Options.run (o : Options) : Outcome :=
  match Arch.avr.matrix o.selected with
  | .error g => { status := 2, complaint := g.wire ++ ['\n'] }
  | .ok all =>
    let cs := o.keep all
    if o.list then { status := 0, output := cs.flatMap (fun c => c.name ++ ['\n']) }
    else
      let report := (Simulator.machine.runBatch Arch.avr cs Machine.initial).value.1
      { status := if report.isSuccess then 0 else 1, output := report.wire }

def runArgs (args : List (List Char)) : Outcome :=
  match Options.parse args with
  | .error e => { status := 2, complaint := e.wire ++ ['\n'] }
  | .ok o => o.run

end AvrConform
