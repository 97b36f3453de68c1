/-!
# Text as a terminal shows it

A terminal takes control characters, and the sequences that an escape character opens, as commands.
`Terminal.shown` is what it shows of a text.
-/

namespace ChartCompiler.Terminal

/-- Where a terminal stands between two characters. -/
inductive State where
  /-- Outside all sequences. -/
  | ground
  /-- Behind an escape character. -/
  | escape
  /-- In an escape sequence that has begun with an intermediate character. -/
  | intermediate
  /-- In a control sequence with its parameters. -/
  | sequence
  /-- In the parameters of a device control string. -/
  | parameters
  /-- In a control string, up to its terminator. -/
  | string
  /-- In a command to the system around the terminal, up to a bell. -/
  | command
  deriving Repr, DecidableEq

namespace State

/-- The state behind a character. Cancel, substitute and escape work everywhere. The terminator of
a control string is a byte, which may also be a part of a longer character. -/
def next (state : State) (c : Char) : State :=
  if c = '\x18' ∨ c = '\x1a' then ground
  else if c = '\x1b' then escape
  else match state with
    | ground => ground
    | escape =>
        if c = '[' then sequence
        else if c = ']' then command
        else if c = 'P' then parameters
        else if c ∈ ['X', '^', '_'] then string
        else if ' ' ≤ c ∧ c ≤ '/' then intermediate
        else if '0' ≤ c ∧ c ≤ '~' then ground
        else escape
    | intermediate => if '0' ≤ c ∧ c ≤ '~' then ground else intermediate
    | sequence => if '@' ≤ c ∧ c ≤ '~' then ground else sequence
    | parameters => if '@' ≤ c ∧ c ≤ '~' then string else parameters
    | string => if 0x9C ∈ String.utf8EncodeChar c then ground else string
    | command => if c = '\x07' then ground else command

/-- Whether a character is shown. Tabs and line ends take effect inside a sequence, but not inside a
string. -/
def shows (state : State) (c : Char) : Bool :=
  let layout := c ∈ ['\t', '\n', '\x0c', '\r']
  match state with
  | ground => layout ∨ (' ' ≤ c ∧ c ≠ '\x7f')
  | escape | intermediate | sequence => layout
  | parameters | string | command => false

end State

/-- What is shown from a state on. In a run of shown characters the next one is looked at as
outside all sequences; a control character ends the run, and a sequence that was left open goes on,
unless a character beyond ASCII has closed it. -/
def shownFrom (inRun : Bool) (state : State) : List Char → List Char
  | [] => []
  | c :: rest =>
      if (if inRun then State.ground else state).shows c then
        c :: shownFrom true (if c.toNat < 0x80 then state else .ground) rest
      else shownFrom false (state.next c) rest

def shown (text : String) : String :=
  String.ofList (shownFrom false .ground text.toList)

end ChartCompiler.Terminal
