import ChartCompiler.Text.Terminal

/-!
# Options of the command line

`Call.ofArguments?` reads arguments from left to right. The value of an option stands in the next
argument or behind an equals sign. A value is looked at when the next option comes, or at the end,
so that an argument nobody knows is reported first.
-/

namespace ChartCompiler.Command

/-- An option that takes the path of a file. -/
inductive FileOption where
  | spec
  | data
  deriving Repr, DecidableEq

namespace FileOption

def name : FileOption → String
  | spec => "--spec"
  | data => "--data"

/-- The option with a word for its value. -/
def usage : FileOption → String
  | spec => "--spec <SPEC>"
  | data => "--data <DATA>"

end FileOption

inductive Flag where
  | pretty
  | validateOnly
  | help
  deriving Repr, DecidableEq

def Flag.name : Flag → String
  | pretty => "--pretty"
  | validateOnly => "--validate-only"
  | help => "--help"

inductive UsageError where
  | noSpec
  | noValue (option : FileOption)
  | unexpectedArgument (text : String)
  | unexpectedValue (value : String) (flag : Flag)
  | repeatedOption (option : FileOption)
  | repeatedFlag (flag : Flag)
  deriving Repr, DecidableEq

/-- The wording of an error. What was typed is repeated as a terminal shows it. -/
def UsageError.message : UsageError → String
  | noSpec =>
      "the following required arguments were not provided:\n  " ++ FileOption.spec.usage
  | noValue option => "a value is required for '" ++ option.usage ++ "' but none was supplied"
  | unexpectedArgument text => "unexpected argument '" ++ Terminal.shown text ++ "' found"
  | unexpectedValue value flag =>
      "unexpected value '" ++ Terminal.shown value ++ "' for '" ++ flag.name ++
        "' found; no more were expected"
  | repeatedOption option =>
      "the argument '" ++ option.usage ++ "' cannot be used multiple times"
  | repeatedFlag flag => "the argument '" ++ flag.name ++ "' cannot be used multiple times"

structure Options where
  spec : String
  data : Option String
  pretty : Bool
  validateOnly : Bool
  deriving Repr, DecidableEq

/-- The files that a call reads. A call that only validates does not look at the data. -/
def Options.paths (o : Options) : List String :=
  o.spec :: if o.validateOnly then [] else o.data.toList

inductive Call where
  | help
  | run (options : Options)
  deriving Repr, DecidableEq

def Call.paths : Call → List String
  | help => []
  | run options => options.paths

structure Given where
  spec : Option String
  data : Option String
  pretty : Bool
  validateOnly : Bool
  deriving Repr, DecidableEq

namespace Given

def nothing : Given :=
  ⟨none, none, false, false⟩

def file? (given : Given) : FileOption → Option String
  | .spec => given.spec
  | .data => given.data

/-- Gives an option its value, which must not be empty. Each option is given once. -/
def setFile (given : Given) (option : FileOption) (path : String) : Except UsageError Given :=
  if (given.file? option).isSome then .error (.repeatedOption option)
  else if path = "" then .error (.noValue option)
  else .ok (match option with
    | .spec => { given with spec := some path }
    | .data => { given with data := some path })

/-- Raises a flag. Each flag is raised once. -/
def raise (given : Given) : Flag → Except UsageError Given
  | .pretty =>
      if given.pretty then .error (.repeatedFlag .pretty) else .ok { given with pretty := true }
  | .validateOnly =>
      if given.validateOnly then .error (.repeatedFlag .validateOnly)
      else .ok { given with validateOnly := true }
  | .help => .ok given

def call (given : Given) : Except UsageError Call :=
  match given.spec with
  | some spec => .ok (.run ⟨spec, given.data, given.pretty, given.validateOnly⟩)
  | none => .error .noSpec

end Given

/-- An option whose value has not been looked at, and the value, if it has come. -/
abbrev Pending := Option (FileOption × Option String)

def Given.settle (given : Given) : Pending → Except UsageError Given
  | none => .ok given
  | some (option, none) => .error (.noValue option)
  | some (option, some path) => given.setFile option path

/-- An argument by its shape. -/
inductive Shape where
  /-- Two hyphens alone. No options follow. -/
  | separator
  /-- Two hyphens and a name, and the text behind an equals sign, if there is one. -/
  | long (name : String) (value : Option String)
  /-- A hyphen and a letter. -/
  | short (letter : Char)
  | plain
  deriving Repr, DecidableEq

/-- The shape of an argument. A hyphen alone is a plain argument. -/
def Shape.of (argument : String) : Shape :=
  match argument.toList with
  | ['-', '-'] => .separator
  | '-' :: '-' :: rest =>
      let name := String.ofList ('-' :: '-' :: rest.takeWhile (· ≠ '='))
      match rest.dropWhile (· ≠ '=') with
      | _ :: value => .long name (some (String.ofList value))
      | [] => .long name none
  | '-' :: letter :: _ => .short letter
  | _ => .plain

/-- What a long name stands for. -/
inductive Known where
  | file (option : FileOption)
  | flag (flag : Flag)
  deriving Repr, DecidableEq

def Known.ofName? (name : String) : Option Known :=
  if name = FileOption.spec.name then some (.file .spec)
  else if name = FileOption.data.name then some (.file .data)
  else if name = Flag.pretty.name then some (.flag .pretty)
  else if name = Flag.validateOnly.name then some (.flag .validateOnly)
  else if name = Flag.help.name then some (.flag .help)
  else none

namespace Call

def ofRest (given : Given) (pending : Pending) : List String → Except UsageError Call
  | [] => do (← given.settle pending).call
  | argument :: rest =>
      match Shape.of argument with
      | .separator =>
          match rest with
          | [] => do (← given.settle pending).call
          | extra :: _ => .error (.unexpectedArgument extra)
      | .long name value =>
          match Known.ofName? name, value with
          | none, _ => .error (.unexpectedArgument name)
          | some (.file option), none => do
              let given ← given.settle pending
              ofRest given (some (option, none)) rest
          | some (.file option), some path => do
              let given ← given.settle pending
              let given ← given.setFile option path
              ofRest given none rest
          | some (.flag flag), some value => .error (.unexpectedValue value flag)
          | some (.flag .help), none => do
              let _ ← given.settle pending
              return .help
          | some (.flag flag), none => do
              let given ← given.settle pending
              let given ← given.raise flag
              ofRest given none rest
      | .short letter =>
          if letter = 'h' then do
            let _ ← given.settle pending
            return .help
          else .error (.unexpectedArgument (String.ofList ['-', letter]))
      | .plain =>
          match pending with
          | some (option, none) => ofRest given (some (option, some argument)) rest
          | _ => .error (.unexpectedArgument argument)

def ofArguments? (arguments : List String) : Except UsageError Call :=
  ofRest .nothing none arguments

end Call

end ChartCompiler.Command
