import ChartCompiler.Command.Failure
import ChartCompiler.Compile
import ChartCompiler.Config.Writer
import ChartCompiler.Spec.Reader
import ChartCompiler.Table.Csv

/-!
# What a call does

`Outcome.of` runs a call over the contents of files. The specification is read first, then the data,
then the specification is validated; a call that only validates passes over the data. Output is
written only where nothing has failed.
-/

namespace ChartCompiler.Command

/-- The contents of the files that can be read, by path. -/
abbrev Files := String → Option ByteArray

def Files.text? (files : Files) (path : String) : Except Unreadable (List Char) :=
  match files path with
  | none => .error .withheld
  | some bytes =>
      match String.fromUTF8? bytes with
      | none => .error .notText
      | some text => .ok text.toList

/-- The name of a file behind the directories of its path. -/
def fileName (path : String) : List Char :=
  let parts := (path.toList.splitOnP (· = '/')).filter fun part => part ≠ [] ∧ part ≠ ['.']
  parts.getLast?.getD []

/-- The text behind the last point of a file's name. A point in front of the name is part of it. -/
def extension (path : String) : List Char :=
  let name := fileName path
  let backwards := name.reverse.takeWhile (· ≠ '.')
  if name = ['.', '.'] ∨ name.length ≤ backwards.length + 1 then [] else backwards.reverse

/-- The table in a file: comma-separated values if the path ends so, else JSON. -/
def loadTable (files : Files) (path : String) : Except Failure Table :=
  if lowerAscii (extension path) = "csv".toList then
    match files path with
    | none => .error (.csvUnreadable path)
    | some bytes => (Table.ofCsv? bytes.toList).mapError (.csvFaulty path bytes.toList)
  else
    match files.text? path with
    | .error reason => .error (.jsonUnreadable path reason)
    | .ok text => do
        let json ← (Json.Reader.readText Json.value text).mapError (.jsonFaulty path text)
        (Table.ofJson? json).mapError .noTable

def loadSpec (files : Files) (path : String) : Except Failure ChartSpec :=
  match files.text? path with
  | .error reason => .error (.specUnreadable path reason)
  | .ok text => (ChartSpec.ofText? text).mapError (.specFaulty text)

/-- Checks a specification and has nothing to say of a valid one. -/
def validate (spec : ChartSpec) : Except Failure (List Char) :=
  if spec.violations.isEmpty then .ok [] else .error (.invalid spec.violations)

def configText (pretty : Bool) (config : RenderConfig) : List Char :=
  (if pretty then config.toJson.pretty else config.toJson.compact) ++ ['\n']

def Options.output (o : Options) (files : Files) : Except Failure (List Char) := do
  let spec ← loadSpec files o.spec
  if o.validateOnly then validate spec
  else
    let table ← (o.data.map (loadTable files)).getD (.ok [])
    let config ← (compile spec table).mapError .invalid
    return configText o.pretty config

def helpLines : List String := [
  "Compile a declarative chart specification into a render configuration",
  "",
  "Options:",
  "  --spec <SPEC>    Chart specification (JSON)",
  "  --data <DATA>    Rows: a JSON array of objects, or CSV when the path ends in .csv",
  "  --pretty         Pretty-print the output JSON",
  "  --validate-only  Only validate the specification; print nothing on success",
  "  -h, --help       Print help"]

structure Outcome where
  status : UInt32
  output : List Char
  report : String

/-- A call that succeeds with an output, or fails with a report. -/
def Outcome.ofExcept (wording : Wording) : Except Failure (List Char) → Outcome
  | .ok output => ⟨0, output, ""⟩
  | .error failure => ⟨failure.status, [], failure.report wording⟩

def Outcome.of (files : Files) (arguments : List String) (wording : Wording := .plain) :
    Outcome :=
  .ofExcept wording do
    match ← (Call.ofArguments? arguments).mapError (.usage arguments) with
    | .help => return helpLines.flatMap fun line => line.toList ++ ['\n']
    | .run options => options.output files

end ChartCompiler.Command
