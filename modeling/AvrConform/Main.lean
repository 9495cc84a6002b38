import AvrConform.CommandLine
set_option autoImplicit false

def main (args : List String) : IO UInt32 := do
  let outcome := AvrConform.runArgs (args.map String.toList)
  let out ← IO.getStdout
  out.putStr (String.ofList outcome.output)
  let err ← IO.getStderr
  err.putStr (String.ofList outcome.complaint)
  return outcome.status.toUInt32
