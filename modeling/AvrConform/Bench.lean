import AvrConform.Simulator.Basic
set_option autoImplicit false

namespace AvrConform

structure Report where
  passed : Nat := 0
  failures : List Failure := []
  deriving DecidableEq

namespace Report

def total (r : Report) : Nat := r.passed + r.failures.length

def decodeFailures (r : Report) : Nat := (r.failures.filter (fun f => f.cause.isDecode)).length

def isSuccess (r : Report) : Bool := r.failures.isEmpty

def record (verdict : Except Failure Unit) (r : Report) : Report :=
  match verdict with
  | .ok () => { r with passed := r.passed + 1 }
  | .error f => { r with failures := f :: r.failures }

def ofVerdicts (vs : List (Except Failure Unit)) : Report := vs.foldr record {}

def append (r t : Report) : Report := ⟨r.passed + t.passed, r.failures ++ t.failures⟩

def wire (r : Report) : List Char :=
  r.failures.flatMap (fun f => "FAIL ".toList ++ f.wire ++ ['\n']) ++
    decimal r.passed ++ " passed, ".toList ++ decimal r.failures.length ++ " failed (".toList ++
    decimal r.decodeFailures ++ " decode failures)\n".toList

theorem ofVerdicts_cons (v : Except Failure Unit) (vs : List (Except Failure Unit)) :
    ofVerdicts (v :: vs) = record v (ofVerdicts vs) := rfl

theorem ofVerdicts_append (vs ws : List (Except Failure Unit)) :
    ofVerdicts (vs ++ ws) = (ofVerdicts vs).append (ofVerdicts ws) := by
  induction vs with
  | nil => simp [ofVerdicts, append]
  | cons v vs ih =>
    rw [List.cons_append, ofVerdicts_cons, ofVerdicts_cons, ih]
    cases v with
    | error f => rfl
    | ok u => simp [record, append, Nat.add_right_comm]

theorem total_ofVerdicts (vs : List (Except Failure Unit)) : (ofVerdicts vs).total = vs.length := by
  induction vs with
  | nil => rfl
  | cons v vs ih =>
    rw [ofVerdicts_cons, List.length_cons, ← ih]
    cases v with
    | error f => simp [record, total, Nat.add_assoc]
    | ok u => simp [record, total, Nat.add_right_comm]

end Report

namespace Simulator

variable {σ ε : Type}

/-- Runs one case and reads the registers back, unless the step fails. -/
def observe (s : Simulator σ ε) (a : Arch) (c : Case) (st : σ) :
    Logged (Except Failure RegisterFile × σ) := do
  let preset := c.preset a
  let st ← s.loadRegisters a preset st
  let st ← s.stage c.word st
  Logged.write (.started c preset.pc)
  let (out, st) ← s.step st
  match out with
  | .error e => pure (.error ⟨c, c.word, .decode (s.describe e)⟩, st)
  | .ok () => pure (.ok (s.readRegisters a st), st)

def verdictEntry (c : Case) : Except Failure Unit → Entry
  | .ok () => .passed c
  | .error f => .failed f

def check (s : Simulator σ ε) (a : Arch) (c : Case) (st : σ) : Logged (Except Failure Unit × σ) := do
  let (snapshot, st) ← s.observe a c st
  let verdict := snapshot.bind (c.judge a)
  Logged.write (verdictEntry c verdict)
  pure (verdict, st)

def observeAll (s : Simulator σ ε) (a : Arch) (cs : List Case) (st : σ) :
    Logged (List (Except Failure RegisterFile) × σ) :=
  Logged.thread (s.observe a) cs st

def runBatch (s : Simulator σ ε) (a : Arch) (cs : List Case) (st : σ) : Logged (Report × σ) := do
  let (verdicts, st) ← Logged.thread (s.check a) cs st
  let report := Report.ofVerdicts verdicts
  Logged.write (.finished report.passed report.failures.length)
  pure (report, st)

end Simulator

end AvrConform
