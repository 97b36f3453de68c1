import ChartCompiler.Command.Outcome
import Mathlib.Tactic.SplitIfs

/-!
# The two modes of the command

A call that only validates and a call that compiles read and validate the specification in the
same way, and no later stage fails once the data is loaded. So one stage, `loadValid`, decides
over both. What they report of an invalid specification is a heading and one entry for each
violation; an entry takes one line unless its message brings a line end from the specification. Of
a specification that cannot be read they report what keeps it from being read.
-/

namespace ChartCompiler.Command

/-! ## Lines -/

/-- The lines of a text, each of them closed by a line end. -/
def textLines (text : List Char) : List (List Char) :=
  (text.splitOn '\n').dropLast

def unlines (lines : List (List Char)) : List Char :=
  lines.flatMap (· ++ ['\n'])

theorem unlines_cons (line : List Char) (lines : List (List Char)) :
    unlines (line :: lines) = line ++ '\n' :: unlines lines := by
  simp [unlines]

/-- Pieces that hold line ends are cut there. -/
theorem textLines_unlines (pieces : List (List Char)) :
    textLines (unlines pieces) = pieces.flatMap (List.splitOn '\n') := by
  have hsplit : (unlines pieces).splitOn '\n' = pieces.flatMap (List.splitOn '\n') ++ [[]] := by
    induction pieces with
    | nil => rfl
    | cons piece pieces ih =>
        rw [unlines_cons, List.splitOn_append_cons_self, ih, List.flatMap_cons,
          List.append_assoc]
  rw [textLines, hsplit, List.dropLast_concat]

/-- The first line of a piece that holds a line end is shorter than the piece. -/
theorem head_splitOn_ne {piece : List Char} (hmem : '\n' ∈ piece) :
    ∃ first rest, piece.splitOn '\n' = first :: rest ∧ first ≠ piece := by
  obtain ⟨first, behind, rfl, hfirst⟩ := List.eq_append_cons_of_mem hmem
  refine ⟨first, behind.splitOn '\n', List.splitOn_append_cons_self_of_not_mem hfirst behind, ?_⟩
  intro heq
  have hlength := congrArg List.length heq
  simp at hlength

/-- Pieces are the lines of their text exactly when none of them holds a line end. -/
theorem textLines_unlines_eq_self_iff (pieces : List (List Char)) :
    textLines (unlines pieces) = pieces ↔ ∀ piece ∈ pieces, '\n' ∉ piece := by
  rw [textLines_unlines]
  induction pieces with
  | nil => simp
  | cons piece pieces ih =>
      rw [List.flatMap_cons, List.forall_mem_cons, ← ih]
      by_cases hmem : '\n' ∈ piece
      · obtain ⟨first, rest, hsplit, hne⟩ := head_splitOn_ne hmem
        rw [hsplit]
        constructor
        · intro heq
          exact absurd (List.cons.inj heq).1 hne
        · rintro ⟨hnone, -⟩
          exact absurd hmem hnone
      · rw [List.splitOn_eq_singleton hmem]
        simp [hmem]

/-! ## Reports of violations -/

/-- The pieces of a report: a heading, and messages as the entries of a list. -/
def reportPieces (messages : List String) : List (List Char) :=
  "Invalid chart specification:".toList :: messages.map fun m => "  - ".toList ++ m.toList

theorem toList_violationLines (violations : List Violation) :
    (Failure.violationLines violations).toList =
      unlines (reportPieces (violations.map Violation.message)) := by
  have hstart : ∀ start : String,
      (violations.foldl (fun text v => text ++ "  - " ++ v.message ++ "\n") start).toList =
        start.toList ++ unlines (violations.map fun v => "  - ".toList ++ v.message.toList) := by
    induction violations with
    | nil => simp [unlines]
    | cons v violations ih =>
        intro start
        rw [List.foldl_cons, ih]
        simp [unlines]
  rw [Failure.violationLines, hstart, reportPieces, List.map_map]
  simp [unlines, Function.comp_def]

/-- A report lists violations: it has their messages as its entries, in order, and these are its
lines as long as no message holds a line end. -/
structure Lists (report : String) (violations : List Violation) : Prop where
  pieces : report.toList = unlines (reportPieces (violations.map Violation.message))
  lines : textLines report.toList = reportPieces (violations.map Violation.message) ↔
    ∀ v ∈ violations, '\n' ∉ v.message.toList

theorem lists_violationLines (violations : List Violation) :
    Lists (Failure.violationLines violations) violations := by
  refine ⟨toList_violationLines violations, ?_⟩
  have hheading : '\n' ∉ "Invalid chart specification:".toList := by decide
  have hbullet : '\n' ∉ "  - ".toList := by decide
  rw [toList_violationLines, textLines_unlines_eq_self_iff, reportPieces, List.forall_mem_cons,
    List.forall_mem_map, List.forall_mem_map]
  simp only [List.mem_append, hbullet, false_or]
  exact ⟨fun h => h.2, fun h => ⟨hheading, h⟩⟩

/-! ## Reports of errors -/

/-- What stands in front of a text and behind its line ends stands in front of its lines. -/
theorem unlines_map_splitOn (margin text : List Char) :
    unlines ((text.splitOn '\n').map (margin ++ ·)) =
      margin ++ text.flatMap (fun c => if c = '\n' then '\n' :: margin else [c]) ++ ['\n'] := by
  induction text with
  | nil => simp [unlines]
  | cons c text ih =>
      obtain ⟨line, lines, hlines⟩ := List.exists_cons_of_ne_nil (List.splitOn_ne_nil '\n' text)
      have hbehind : line ++ '\n' :: unlines (lines.map (margin ++ ·)) =
          text.flatMap (fun c => if c = '\n' then '\n' :: margin else [c]) ++ ['\n'] := by
        rw [hlines, List.map_cons, unlines_cons, List.append_assoc, List.append_assoc] at ih
        exact List.append_cancel_left ih
      rw [List.flatMap_cons]
      by_cases hend : c = '\n'
      · subst hend
        have hsplit : ('\n' :: text).splitOn '\n' = [] :: line :: lines := by
          rw [← hlines]
          exact List.splitOn_append_cons_self [] text
        rw [hsplit, List.map_cons, List.map_cons, unlines_cons, unlines_cons,
          List.append_assoc margin line, hbehind]
        simp
      · have hsplit : (c :: text).splitOn '\n' = (c :: line) :: lines := by
          rw [List.splitOn_cons_eq_if_modifyHead, hlines]
          simp [hend]
        rw [hsplit, List.map_cons, unlines_cons, List.append_assoc, List.cons_append, hbehind]
        simp [hend]

/-- A report explains an error. What was attempted comes first, then an empty line, a heading and
the lines of the cause, set in. -/
def Explains (report context cause : String) : Prop :=
  report.toList = unlines (("Error: " ++ context).toList :: [] :: "Caused by:".toList ::
    (cause.toList.splitOn '\n').map ("    ".toList ++ ·))

theorem explains_errorText (context cause : String) :
    Explains (errorText context [cause]) context cause := by
  unfold Explains
  simp only [unlines_cons, unlines_map_splitOn]
  simp [errorText, causesText, setIn]

/-! ## Arguments -/

def Options.checking (o : Options) : Options :=
  { o with validateOnly := true }

def Given.checking (given : Given) : Given :=
  { given with validateOnly := true }

/-- A step neither raises the flag that asks for validation only nor looks at it. -/
def Passive (step : Given → Except UsageError Given) : Prop :=
  ∀ given next, step given = .ok next →
    next.validateOnly = given.validateOnly ∧ step given.checking = .ok next.checking

theorem passive_setFile (option : FileOption) (path : String) :
    Passive fun given => given.setFile option path := by
  intro given next hset
  have hfile : given.checking.file? option = given.file? option := by cases option <;> rfl
  unfold Given.setFile at hset ⊢
  dsimp only at hset ⊢
  rw [hfile]
  split_ifs at hset ⊢
  cases option <;> cases hset <;> exact ⟨rfl, rfl⟩

theorem passive_settle (pending : Pending) : Passive fun given => given.settle pending := by
  intro given next hsettle
  match pending with
  | none =>
      cases hsettle
      exact ⟨rfl, rfl⟩
  | some (option, none) => cases hsettle
  | some (option, some path) => exact passive_setFile option path given next hsettle

theorem passive_raise_pretty : Passive fun given => given.raise .pretty := by
  intro given next hraise
  have hpretty : given.checking.pretty = given.pretty := rfl
  unfold Given.raise at hraise ⊢
  dsimp only at hraise ⊢
  rw [hpretty]
  split_ifs at hraise ⊢
  cases hraise
  exact ⟨rfl, rfl⟩

/-- Whatever is given when a call that compiles is read, the flag that asks for validation only is
not, and with the flag the call that validates instead is read. -/
def ReadsBoth (o : Options) (read : Given → Except UsageError Call) : Prop :=
  ∀ given, read given = .ok (.run o) →
    given.validateOnly = false ∧ read given.checking = .ok (.run o.checking)

theorem readsBoth_call {o : Options} (hfull : o.validateOnly = false) :
    ReadsBoth o Given.call := by
  rintro ⟨spec, data, pretty, validateOnly⟩ hcall
  cases spec with
  | none => cases hcall
  | some spec =>
      cases hcall
      exact ⟨hfull, rfl⟩

theorem ReadsBoth.after {o : Options} {step : Given → Except UsageError Given}
    {read : Given → Except UsageError Call} (hstep : Passive step) (hread : ReadsBoth o read) :
    ReadsBoth o fun given => step given >>= read := by
  intro given hrun
  dsimp only at hrun ⊢
  cases hnext : step given with
  | error e =>
      rw [hnext] at hrun
      cases hrun
  | ok next =>
      rw [hnext] at hrun
      obtain ⟨hflag, hchecking⟩ := hread next hrun
      obtain ⟨hkept, hstepped⟩ := hstep given next hnext
      refine ⟨hkept ▸ hflag, ?_⟩
      rw [hstepped]
      exact hchecking

theorem readsBoth_help (o : Options) : ReadsBoth o fun _ => .ok .help :=
  nofun

/-- Behind the flag that asks for validation only no call that compiles is read. -/
theorem ReadsBoth.after_flag {o : Options} {read : Given → Except UsageError Call}
    (hread : ReadsBoth o read) :
    ReadsBoth o fun given => given.raise .validateOnly >>= read := by
  intro given hrun
  unfold Given.raise at hrun
  dsimp only at hrun
  split_ifs at hrun
  · cases hrun
  · obtain ⟨hflag, -⟩ := hread _ hrun
    cases hflag

theorem readsBoth_ofRest {o : Options} (hfull : o.validateOnly = false)
    (arguments : List String) :
    ∀ pending, ReadsBoth o fun given => Call.ofRest given pending arguments := by
  have hend : ∀ pending, ReadsBoth o fun given => given.settle pending >>= Given.call :=
    fun pending => (readsBoth_call hfull).after (passive_settle pending)
  induction arguments with
  | nil => exact hend
  | cons argument rest ih =>
      intro pending given hrun
      unfold Call.ofRest at hrun ⊢
      dsimp only at hrun ⊢
      cases hshape : Shape.of argument with
      | separator =>
          rw [hshape] at hrun
          cases rest with
          | nil => exact hend pending given hrun
          | cons extra rest => cases hrun
      | long name value =>
          rw [hshape] at hrun
          dsimp only at hrun ⊢
          match hknown : Known.ofName? name, value with
          | none, _ =>
              rw [hknown] at hrun
              cases hrun
          | some (.file option), none =>
              rw [hknown] at hrun
              exact (ih _).after (passive_settle pending) given hrun
          | some (.file option), some path =>
              rw [hknown] at hrun
              exact ((ih _).after (passive_setFile option path)).after (passive_settle pending)
                given hrun
          | some (.flag flag), some value =>
              rw [hknown] at hrun
              cases hrun
          | some (.flag .help), none =>
              rw [hknown] at hrun
              exact (readsBoth_help o).after (passive_settle pending) given hrun
          | some (.flag .pretty), none =>
              rw [hknown] at hrun
              exact ((ih _).after passive_raise_pretty).after (passive_settle pending) given hrun
          | some (.flag .validateOnly), none =>
              rw [hknown] at hrun
              exact (ih none).after_flag.after (passive_settle pending) given hrun
      | short letter =>
          rw [hshape] at hrun
          dsimp only at hrun ⊢
          split_ifs at hrun ⊢
          exact (readsBoth_help o).after (passive_settle pending) given hrun
      | plain =>
          rw [hshape] at hrun
          match pending with
          | none | some (_, some _) => cases hrun
          | some (option, none) => exact ih _ given hrun

/-- The flag in front of the arguments of a call that compiles makes them validate only. -/
theorem ofArguments?_cons_validateOnly {arguments : List String} {o : Options}
    (hcall : Call.ofArguments? arguments = .ok (.run o)) (hfull : o.validateOnly = false) :
    Call.ofArguments? (Flag.validateOnly.name :: arguments) = .ok (.run o.checking) := by
  have hflag : Call.ofArguments? (Flag.validateOnly.name :: arguments) =
      Call.ofRest Given.nothing.checking none arguments := rfl
  rw [hflag]
  exact (readsBoth_ofRest hfull arguments none .nothing hcall).2

/-! ## Stages -/

/-- The specification in a file, if it is valid. -/
def loadValid (files : Files) (path : String) : Except Failure ChartSpec := do
  let spec ← loadSpec files path
  if spec.violations.isEmpty then .ok spec else .error (.invalid spec.violations)

theorem loadSpec_of_unreadable {files : Files} {path : String} {reason : Unreadable}
    (htext : files.text? path = .error reason) :
    loadSpec files path = .error (.specUnreadable path reason) := by
  rw [loadSpec, htext]

theorem loadSpec_of_text {files : Files} {path : String} {text : List Char}
    (htext : files.text? path = .ok text) :
    loadSpec files path = (ChartSpec.ofText? text).mapError (.specFaulty text) := by
  rw [loadSpec, htext]

theorem status_of_loadSpec {files : Files} {path : String} {failure : Failure}
    (herror : loadSpec files path = .error failure) : failure.status = 1 := by
  cases htext : files.text? path with
  | error reason =>
      rw [loadSpec_of_unreadable htext] at herror
      cases herror
      rfl
  | ok text =>
      rw [loadSpec_of_text htext] at herror
      generalize ChartSpec.ofText? text = read at herror
      cases read with
      | error fault =>
          cases herror
          rfl
      | ok spec => cases herror

theorem status_of_loadValid {files : Files} {path : String} {failure : Failure}
    (herror : loadValid files path = .error failure) : failure.status = 1 := by
  unfold loadValid at herror
  cases hspec : loadSpec files path with
  | error other =>
      rw [hspec] at herror
      cases herror
      exact status_of_loadSpec hspec
  | ok spec =>
      rw [hspec] at herror
      simp only [bind, Except.bind] at herror
      split_ifs at herror
      rw [← Except.error.inj herror]
      rfl

/-- A call that validates only writes nothing. -/
theorem output_of_validateOnly {c : Options} (hcheck : c.validateOnly = true) (files : Files) :
    c.output files = (loadValid files c.spec).map fun _ => [] := by
  unfold Options.output loadValid
  cases loadSpec files c.spec with
  | error failure => rfl
  | ok spec =>
      simp only [bind, Except.bind, hcheck, if_true, validate]
      split_ifs
      · simp only [Except.map]
      · simp only [Except.map]

/-- A call that compiles writes the configuration of a valid specification. -/
theorem output_of_full {o : Options} (hfull : o.validateOnly = false) {files : Files}
    (hloads : ∀ path ∈ o.data, ∃ table, loadTable files path = .ok table) :
    ∃ table, o.output files =
      (loadValid files o.spec).map fun spec => configText o.pretty (spec.config table) := by
  have hdata : ∃ table, (o.data.map (loadTable files)).getD (.ok []) = .ok table := by
    cases hpath : o.data with
    | none => exact ⟨[], rfl⟩
    | some path => exact hloads path hpath
  obtain ⟨table, htable⟩ := hdata
  refine ⟨table, ?_⟩
  unfold Options.output loadValid
  cases loadSpec files o.spec with
  | error failure => rfl
  | ok spec =>
      rw [htable, hfull]
      simp only [bind, Except.bind, compile, Bool.false_eq_true, if_false]
      split_ifs
      · simp only [Except.mapError, Except.map, pure, Except.pure]
      · simp only [Except.mapError, Except.map]

theorem loadValid_of_violations {files : Files} {path : String} {spec : ChartSpec}
    (hspec : loadSpec files path = .ok spec) (hviolations : spec.violations ≠ []) :
    loadValid files path = .error (.invalid spec.violations) := by
  unfold loadValid
  rw [hspec]
  simp only [bind, Except.bind, List.isEmpty_iff, hviolations, if_false]

theorem loadValid_eq_ok_iff {files : Files} {path : String} {spec : ChartSpec} :
    loadValid files path = .ok spec ↔ loadSpec files path = .ok spec ∧ spec.violations = [] := by
  unfold loadValid
  cases hspec : loadSpec files path with
  | error failure => simp [bind, Except.bind]
  | ok other =>
      simp only [bind, Except.bind, List.isEmpty_iff]
      split_ifs with hvalid
      · constructor
        · intro heq
          cases heq
          exact ⟨rfl, hvalid⟩
        · exact fun h => h.1
      · constructor
        · nofun
        · rintro ⟨heq, hnone⟩
          cases heq
          exact absurd hnone hvalid

/-! ## Outcomes -/

theorem Outcome.of_run {arguments : List String} {o : Options}
    (hcall : Call.ofArguments? arguments = .ok (.run o)) (files : Files) (wording : Wording) :
    Outcome.of files arguments wording = .ofExcept wording (o.output files) := by
  unfold Outcome.of
  rw [hcall]
  rfl

/-- A call that validates only reports what is wrong with a specification that can be read. -/
theorem Outcome.of_invalid {arguments : List String} {c : Options}
    (hcall : Call.ofArguments? arguments = .ok (.run c)) (hcheck : c.validateOnly = true)
    {files : Files} {spec : ChartSpec} (hspec : loadSpec files c.spec = .ok spec)
    (hviolations : spec.violations ≠ []) (wording : Wording) :
    Outcome.of files arguments wording = ⟨1, [], Failure.violationLines spec.violations⟩ := by
  rw [Outcome.of_run hcall, output_of_validateOnly hcheck,
    loadValid_of_violations hspec hviolations]
  generalize spec.violations = violations
  rfl

/-- Whatever a call is for, it fails where the specification cannot be read. -/
theorem Outcome.of_unloaded {arguments : List String} {o : Options}
    (hcall : Call.ofArguments? arguments = .ok (.run o)) {files : Files} {failure : Failure}
    (hspec : loadSpec files o.spec = .error failure) (wording : Wording) :
    Outcome.of files arguments wording = ⟨1, [], failure.report wording⟩ := by
  have houtput : o.output files = .error failure := by
    unfold Options.output
    rw [hspec]
    rfl
  rw [Outcome.of_run hcall, houtput, ← status_of_loadSpec hspec]
  rfl

/-- A call that compiles and one that validates only agree. Both succeed, or both fail with status
1 and nothing written; they report the same; and only a call that compiles and succeeds writes
anything. -/
structure Agree (full check : Outcome) : Prop where
  succeeds : check.status = 0 ↔ full.status = 0
  fails : full.status ≠ 0 →
    full.status = 1 ∧ check.status = 1 ∧ full.output = [] ∧ check.output = []
  report : check.report = full.report
  silent : check.output = []
  writes : full.output ≠ [] ↔ full.status = 0

/-- What keeps a specification from being compiled is reported: the system keeps its file back, the
bytes are no text, the syntax is broken, a value does not fit, or there are violations. -/
structure Reports (files : Files) (path : String) (wording : Wording) (outcome : Outcome) :
    Prop where
  withheld : files path = none → outcome.status = 1 ∧
    Explains outcome.report ("Failed to read spec " ++ path) (wording.file path)
  notText : ∀ bytes, files path = some bytes → String.fromUTF8? bytes = none →
    outcome.status = 1 ∧ Explains outcome.report ("Failed to read spec " ++ path)
      "stream did not contain valid UTF-8"
  broken : ∀ text fault, files.text? path = .ok text → ChartSpec.ofText? text = .error fault →
    fault = .cutShort ∨ fault = .malformed →
      outcome.status = 1 ∧ Explains outcome.report "Failed to parse chart specification JSON"
        ((wording.spec text).syntaxFault ++ (wording.spec text).place)
  mismatch : ∀ text cause, files.text? path = .ok text →
    ChartSpec.ofText? text = .error (.mismatch cause) →
      outcome.status = 1 ∧ Explains outcome.report "Failed to parse chart specification JSON"
        (cause.message ++ (wording.spec text).place)
  invalid : ∀ spec, loadSpec files path = .ok spec → spec.violations ≠ [] →
    outcome.status = 1 ∧ Lists outcome.report spec.violations

theorem reports_of_validateOnly {arguments : List String} {c : Options}
    (hcall : Call.ofArguments? arguments = .ok (.run c)) (hcheck : c.validateOnly = true)
    (files : Files) (wording : Wording) :
    Reports files c.spec wording (Outcome.of files arguments wording) where
  withheld := by
    intro hnone
    have htext : files.text? c.spec = .error .withheld := by rw [Files.text?, hnone]
    rw [Outcome.of_unloaded hcall (loadSpec_of_unreadable htext)]
    exact ⟨rfl, explains_errorText _ _⟩
  notText := by
    intro bytes hbytes hutf
    have htext : files.text? c.spec = .error .notText := by
      rw [Files.text?, hbytes]
      dsimp only
      rw [hutf]
    rw [Outcome.of_unloaded hcall (loadSpec_of_unreadable htext)]
    exact ⟨rfl, explains_errorText _ _⟩
  broken := by
    intro text fault htext hread hsyntax
    have hspec : loadSpec files c.spec = .error (.specFaulty text fault) := by
      rw [loadSpec_of_text htext, hread, Except.mapError]
    rw [Outcome.of_unloaded hcall hspec]
    rcases hsyntax with rfl | rfl <;> exact ⟨rfl, explains_errorText _ _⟩
  mismatch := by
    intro text cause htext hread
    have hspec : loadSpec files c.spec = .error (.specFaulty text (.mismatch cause)) := by
      rw [loadSpec_of_text htext, hread, Except.mapError]
    rw [Outcome.of_unloaded hcall hspec]
    exact ⟨rfl, explains_errorText _ _⟩
  invalid := by
    intro spec hspec hviolations
    rw [Outcome.of_invalid hcall hcheck hspec hviolations]
    dsimp only
    exact ⟨rfl, lists_violationLines spec.violations⟩

/-- For every file of a specification, and for data that loads or none, a call that compiles
succeeds exactly where the specification can be read and is valid, and every call that only
validates the same file agrees with it, such as the same arguments behind the flag. Where they
fail, the report says why. -/
theorem modes_agree {files : Files} {arguments : List String} {o : Options}
    (hcall : Call.ofArguments? arguments = .ok (.run o)) (hfull : o.validateOnly = false)
    (hloads : ∀ path ∈ o.data, ∃ table, loadTable files path = .ok table) (wording : Wording) :
    Call.ofArguments? (Flag.validateOnly.name :: arguments) = .ok (.run o.checking) ∧
      ((Outcome.of files arguments wording).status = 0 ↔
        ∃ spec, loadSpec files o.spec = .ok spec ∧ spec.violations = []) ∧
      ∀ others c, Call.ofArguments? others = .ok (.run c) → c.validateOnly = true →
        c.spec = o.spec →
          Agree (Outcome.of files arguments wording) (Outcome.of files others wording) ∧
            Reports files o.spec wording (Outcome.of files others wording) := by
  obtain ⟨table, houtput⟩ := output_of_full hfull hloads
  refine ⟨ofArguments?_cons_validateOnly hcall hfull, ?_, ?_⟩
  · rw [Outcome.of_run hcall, houtput]
    simp only [← loadValid_eq_ok_iff]
    cases hvalid : loadValid files o.spec with
    | error failure => simp [Outcome.ofExcept, Except.map, status_of_loadValid hvalid]
    | ok spec => simp [Outcome.ofExcept, Except.map]
  · intro others c hothers hcheck hsame
    refine ⟨?_, hsame ▸ reports_of_validateOnly hothers hcheck files wording⟩
    rw [Outcome.of_run hcall, Outcome.of_run hothers, houtput, output_of_validateOnly hcheck,
      hsame]
    cases hvalid : loadValid files o.spec with
    | error failure =>
        have hstatus := status_of_loadValid hvalid
        constructor <;> simp [Outcome.ofExcept, Except.map, hstatus]
    | ok spec =>
        constructor <;> simp [Outcome.ofExcept, Except.map, configText]

/-! ## A specification with two mistakes -/

/-- A specification without columns, whose second channel names nothing. -/
def sketchText (field : String) : String :=
  let channel (field type : String) : Json :=
    .object [("field", .string field), ("type", .string type)]
  let sketch : Json := .object [
    ("chartType", .string "bar"),
    ("encoding", .object [("x", channel field "nominal"), ("y", channel "" "quantitative")])]
  String.ofList sketch.compact

/-- Files of which only one has a text. -/
def Files.single (path text : String) : Files :=
  fun other => if other = path then some text.toUTF8 else none

theorem text?_single (path text : String) :
    (Files.single path text).text? path = .ok text.toList := by
  have htext : String.fromUTF8? text.toUTF8 = some text := dif_pos text.isValidUTF8
  rw [Files.text?, Files.single, if_pos rfl]
  dsimp only
  rw [htext]

def sketchMessages (field : String) : List String :=
  ["encoding.x.field '" ++ field ++ "' does not reference a column",
    "encoding.y.field must not be empty"]

theorem loadSpec_sketchText (field : String)
    (hmessages : (ChartSpec.ofText? (sketchText field).toList).toOption.map
      (fun spec => spec.violations.map Violation.message) = some (sketchMessages field)) :
    ∃ spec, loadSpec (.single "s.json" (sketchText field)) "s.json" = .ok spec ∧
      spec.violations ≠ [] ∧ spec.violations.map Violation.message = sketchMessages field := by
  rw [loadSpec_of_text (text?_single _ _)]
  cases hread : ChartSpec.ofText? (sketchText field).toList with
  | error fault =>
      rw [hread] at hmessages
      cases hmessages
  | ok spec =>
      rw [hread] at hmessages
      have hsketch : spec.violations.map Violation.message = sketchMessages field :=
        Option.some.inj hmessages
      refine ⟨spec, rfl, ?_, hsketch⟩
      intro hnone
      rw [hnone] at hsketch
      cases hsketch

/-- The modes agree on a sketch with two mistakes, and on an object without any member. -/
theorem modes_agree_sketch :
    let arguments := ["--spec", "s.json"]
    let checking := Flag.validateOnly.name :: arguments
    let sketch := Files.single "s.json" (sketchText "day")
    let empty := Files.single "s.json" "{}"
    let wording := { Wording.plain with spec := fun _ => ⟨"", 1, 2⟩ }
    (Agree (Outcome.of sketch arguments wording) (Outcome.of sketch checking wording) ∧
      (Outcome.of sketch checking wording).status = 1 ∧
      ∃ spec : ChartSpec, Lists (Outcome.of sketch checking wording).report spec.violations ∧
        spec.violations.map Violation.message = sketchMessages "day") ∧
    Agree (Outcome.of empty arguments wording) (Outcome.of empty checking wording) ∧
      (Outcome.of empty checking wording).status = 1 ∧
      Explains (Outcome.of empty checking wording).report
        "Failed to parse chart specification JSON" "missing field `chartType` at line 1 column 2" := by
  intro arguments checking sketch empty wording
  have hcall : Call.ofArguments? arguments = .ok (.run ⟨"s.json", none, false, false⟩) := rfl
  have hloads (files : Files) :
      ∀ path ∈ (none : Option String), ∃ table, loadTable files path = .ok table := nofun
  have hagree (files : Files) : Agree (Outcome.of files arguments wording)
      (Outcome.of files checking wording) ∧
      Reports files "s.json" wording (Outcome.of files checking wording) := by
    obtain ⟨hchecking, -, hboth⟩ := modes_agree hcall rfl (hloads files) wording
    exact hboth _ _ hchecking rfl rfl
  obtain ⟨hsketch, hviolates⟩ := hagree sketch
  obtain ⟨hempty, hfaulty⟩ := hagree empty
  obtain ⟨spec, hspec, hviolations, hmessages⟩ :=
    loadSpec_sketchText "day" (by decide +kernel)
  obtain ⟨hstatus, hlists⟩ := hviolates.invalid spec hspec hviolations
  have htext : empty.text? "s.json" = .ok "{}".toList := text?_single "s.json" "{}"
  have hread : ChartSpec.ofText? "{}".toList = .error (.mismatch (.missingField "chartType")) :=
    rfl
  have hwords : Json.Mismatch.message (.missingField "chartType") ++
      (wording.spec "{}".toList).place = "missing field `chartType` at line 1 column 2" := by
    decide +kernel
  have hmissing := hfaulty.mismatch "{}".toList (.missingField "chartType") htext hread
  rw [hwords] at hmissing
  exact ⟨⟨hsketch, hstatus, spec, hlists, hmessages⟩, hempty, hmissing⟩

/-- A field with a line end in its name. One of two violations takes two lines. -/
theorem report_splits_message :
    let files := Files.single "s.json" (sketchText "a\nb")
    let check := Outcome.of files [Flag.validateOnly.name, "--spec", "s.json"]
    ∃ spec, loadSpec files "s.json" = .ok spec ∧ spec.violations.length = 2 ∧
      (textLines check.report.toList).map String.ofList =
        ["Invalid chart specification:", "  - encoding.x.field 'a",
          "b' does not reference a column", "  - encoding.y.field must not be empty"] := by
  intro files check
  obtain ⟨spec, hspec, hviolations, hmessages⟩ :=
    loadSpec_sketchText "a\nb" (by decide +kernel)
  have hlength : spec.violations.length = 2 := by
    rw [← List.length_map (f := Violation.message), hmessages]
    rfl
  refine ⟨spec, hspec, hlength, ?_⟩
  have hcheck : check = ⟨1, [], Failure.violationLines spec.violations⟩ :=
    Outcome.of_invalid (c := ⟨"s.json", none, false, true⟩) rfl rfl hspec hviolations .plain
  rw [hcheck]
  dsimp only
  rw [toList_violationLines, hmessages]
  decide +kernel

end ChartCompiler.Command
