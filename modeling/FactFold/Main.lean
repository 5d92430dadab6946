import FactFold.Scenario.Loading

namespace FactFold

def readText? (path : String) : IO (Option String) :=
  try
    return some (← IO.FS.readFile path)
  catch _ =>
    return none

end FactFold

open FactFold in
def main (args : List String) : IO UInt32 := do
  match Arguments.parse? {} args with
  | none =>
    IO.eprintln "usage: [--json] <SCENARIOS>..."
    return 2
  | some arguments =>
    let files ← arguments.files.mapM readText?
    let (output, code) := replayFiles .standard arguments.asJson files
    IO.print output
    return code.toUInt32
