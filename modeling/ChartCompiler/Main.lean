import ChartCompiler.Command.Outcome

/-!
# The command

Reads the files that the arguments name, runs the call, and passes its outcome on.
-/

namespace ChartCompiler.Command

/-- Why the system keeps a file back. -/
def systemWords : IO.Error → String
  | .noFileOrDirectory _ code words | .permissionDenied _ code words
  | .inappropriateType _ code words | .resourceExhausted _ code words =>
      words ++ " (os error " ++ toString code ++ ")"
  | error => toString error

def readFile (path : String) : IO (Except String ByteArray) := do
  try
    return .ok (← IO.FS.readBinFile path)
  catch error => return .error (systemWords error)

/-- The files that the arguments ask for, each with its bytes or what the system says. -/
def readFiles (arguments : List String) : IO (List (String × Except String ByteArray)) := do
  match Call.ofArguments? arguments with
  | .error _ => return []
  | .ok call => call.paths.mapM fun path => do return (path, ← readFile path)

end ChartCompiler.Command

open ChartCompiler.Command

def main (arguments : List String) : IO UInt32 := do
  let read ← readFiles arguments
  let files : Files := fun path => (read.lookup path).bind Except.toOption
  let words path := match read.lookup path with
    | some (.error words) => words
    | _ => Wording.plain.file path
  let outcome := Outcome.of files arguments { Wording.plain with file := words }
  IO.print (String.ofList outcome.output)
  IO.eprint outcome.report
  return outcome.status
