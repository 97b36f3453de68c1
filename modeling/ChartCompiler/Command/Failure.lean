import ChartCompiler.Command.Options
import ChartCompiler.Json.Fault
import ChartCompiler.Spec.Validity
import ChartCompiler.Table.Basic

/-!
# Why a call fails

The report of an error begins with what was attempted. What made the attempt fail stands behind an
empty line and a heading, set in; of several causes each has a number. The violations of a
specification are a list of their own.

Not all words of a report are the command's. The system says why it keeps a file back, and the
readers of texts say what breaks the syntax and where. `Wording` stands for those. A trace of calls,
which the environment can ask for behind the causes, is left out.
-/

namespace ChartCompiler.Command

/-! ## Words of others -/

/-- What a reader of JSON says when it stops: what is wrong with the syntax, if it is the syntax,
and the place. Lines count from one, and a fault on line zero has no place. -/
structure Remark where
  syntaxFault : String
  line : Nat
  column : Nat

def Remark.place (remark : Remark) : String :=
  if remark.line = 0 then ""
  else " at line " ++ toString remark.line ++ " column " ++ toString remark.column

/-- A fault in words. Only a value that does not fit is worded here. -/
def Remark.words (remark : Remark) : Json.Fault → String
  | .cutShort => remark.syntaxFault ++ remark.place
  | .malformed => remark.syntaxFault ++ remark.place
  | .mismatch cause => cause.message ++ remark.place

/-- What the system and the readers of texts add to a report. -/
structure Wording where
  /-- What follows the first line about arguments that make no call: how to call. -/
  usage : List String → String
  /-- Why the file with the given path cannot be opened or read. -/
  file : String → String
  /-- Where a text stops being a specification. -/
  spec : List Char → Remark
  /-- Where a text stops being JSON. -/
  data : List Char → Remark
  /-- What is wrong with comma-separated values, and what causes that. -/
  csv : List UInt8 → List String

/-- A wording for those who have none: it knows no places. -/
def Wording.plain : Wording where
  usage _ := ""
  file _ := "the file cannot be read"
  spec _ := ⟨"the text ends too early or is not JSON", 0, 0⟩
  data _ := ⟨"the text ends too early or is not JSON", 0, 0⟩
  csv _ := []

/-! ## Reports of errors -/

/-- A text with something in front of its first line and of all others. -/
def setIn (first others text : String) : String :=
  first ++ String.ofList (text.toList.flatMap fun c =>
    if c = '\n' then '\n' :: others.toList else [c])

/-- The number in front of one of several causes, in five columns. -/
def causeNumber (index : Nat) : String :=
  let digits := toString index
  "".pushn ' ' (5 - digits.length) ++ digits ++ ": "

/-- The causes of an error, from the nearest to the last. -/
def causesText : List String → String
  | [] => ""
  | [cause] => "\n\nCaused by:\n" ++ setIn "    " "    " cause
  | causes =>
      "\n\nCaused by:" ++ String.join (causes.mapIdx fun index cause =>
        "\n" ++ setIn (causeNumber index) "       " cause)

def errorText (context : String) (causes : List String) : String :=
  "Error: " ++ context ++ causesText causes ++ "\n"

/-! ## Failures -/

/-- Why there is no text in a file: the system keeps the file back, or it is not encoded text. -/
inductive Unreadable where
  | withheld
  | notText
  deriving Repr, DecidableEq

/-- The reason in words, given those of the system. -/
def Unreadable.words (system : String) : Unreadable → String
  | withheld => system
  | notText => "stream did not contain valid UTF-8"

/-- Why a call fails, with what was being read. -/
inductive Failure where
  | usage (arguments : List String) (error : UsageError)
  | specUnreadable (path : String) (reason : Unreadable)
  | specFaulty (text : List Char) (fault : Json.Fault)
  | csvUnreadable (path : String)
  | csvFaulty (path : String) (bytes : List UInt8) (error : Table.Error)
  | jsonUnreadable (path : String) (reason : Unreadable)
  | jsonFaulty (path : String) (text : List Char) (fault : Json.Fault)
  | noTable (error : Table.Error)
  | invalid (violations : List Violation)

namespace Failure

def violationLines (violations : List Violation) : String :=
  violations.foldl (fun text v => text ++ "  - " ++ v.message ++ "\n")
    "Invalid chart specification:\n"

def report (wording : Wording) : Failure → String
  | usage arguments error => "error: " ++ error.message ++ "\n" ++ wording.usage arguments
  | specUnreadable path reason =>
      errorText ("Failed to read spec " ++ path) [reason.words (wording.file path)]
  | specFaulty text fault =>
      errorText "Failed to parse chart specification JSON" [(wording.spec text).words fault]
  | csvUnreadable path => errorText ("Failed to open " ++ path) [wording.file path]
  | csvFaulty path bytes error =>
      errorText ("Failed to read CSV " ++ path) (error.message :: wording.csv bytes)
  | jsonUnreadable path reason =>
      errorText ("Failed to read " ++ path) [reason.words (wording.file path)]
  | jsonFaulty path text fault =>
      errorText ("Invalid JSON in " ++ path) [(wording.data text).words fault]
  | noTable error => errorText error.message []
  | invalid violations => violationLines violations

example :
    (csvFaulty "d.csv" [] (.csvRecord 2)).report
        { Wording.plain with csv := fun _ => ["record 2 has 3 fields,\nthe others 2"] } =
      "Error: Failed to read CSV d.csv\n\nCaused by:\n    0: Failed to read CSV record 2\n" ++
        "    1: record 2 has 3 fields,\n       the others 2\n" := by
  decide +kernel

def status : Failure → UInt32
  | usage .. => 2
  | _ => 1

end Failure

end ChartCompiler.Command
