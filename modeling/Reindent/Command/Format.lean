import Reindent.Advice.Summary
import Reindent.Arguments.Parse
import Reindent.Command.Session

/-!
# The format command

Formatting the documents of a project, or the standard input.  What is done does not depend on how
it is shown: `perform` does the work, and `run` shows its result.
-/

namespace Reindent
namespace Command
namespace Format

structure Request where
  project : ProjectChoice := {}
  json : Bool := false
  check : Bool := false
  diff : Bool := false
  stdin : Bool := false
  lines : Arguments.Choice String := .absent
  paths : List String := []
  deriving DecidableEq, Repr

/-- What became of the documents of a run. -/
structure Tally where
  changed : List Document.Comparison := []
  unchanged : List Path := []
  failed : Advice.Failures := []
  deriving DecidableEq, Repr

structure Progress where
  tree : FileTree
  tally : Tally := {}
  notes : List Note := []

/-- What is logged for a document that was compared. -/
def documentNotes (how : Document.Formatting) (c : Document.Comparison) : List Note :=
  let verdict := if c.changed && how.write then "reformatted " ++ c.path.text
    else if c.changed then c.path.text ++ ": would change"
    else c.path.text ++ ": unchanged"
  layoutNotes (Assist.covered how.range c.before) ++ [.log .debug "fubelt.files" verdict]

/-- One document of a run.  A document that fails is recorded, and the run goes on. -/
def document (cwd : Location) (how : Document.Formatting) (p : Progress) (path : Path) :
    Except Crash Progress :=
  match Document.format p.tree cwd how path with
  | .error (.crash cause) => .error cause
  | .error fault =>
    .ok { p with
      tally := { p.tally with failed := p.tally.failed.record path fault.message } }
  | .ok (comparison, tree) =>
    let tally := if comparison.changed then
        { p.tally with changed := p.tally.changed ++ [comparison] }
      else { p.tally with unchanged := p.tally.unchanged ++ [path] }
    .ok { tree, tally, notes := p.notes ++ documentNotes how comparison }

def documents (cwd : Location) (how : Document.Formatting) :
    Progress → List Path → Progress × Except Crash Unit
  | p, [] => (p, .ok ())
  | p, path :: rest =>
    match document cwd how p path with
    | .error cause => (p, .error cause)
    | .ok next => documents cwd how next rest

/-- What a successful run did. -/
inductive Result where
  /-- The standard input was formatted. -/
  | text (before formatted : Text)
  /-- So many documents were found and dealt with. -/
  | files (count : Nat) (tally : Tally)
  deriving DecidableEq, Repr

/-- What a run did, whether or not it succeeded. -/
structure Performed where
  tree : FileTree
  input : ByteArray
  notes : List Note
  result : Except Fault Result

def rangeOf (request : Request) : Except Fault (Option Assist.LineRange) :=
  match request.lines with
  | .absent => .ok none
  | .blank => .error (.crash .blankRange)
  | .value s =>
    match Project.lineRange s with
    | .ok range => .ok (some range)
    | .error e => .error (.settings (.lineRange e))

/-- Documents are written back unless they are only to be checked or shown. -/
def writes (request : Request) : Bool :=
  !(request.check || request.diff)

/-- Format the standard input.  The unit matters only once the input has been read. -/
def performInput (session : Session) (settings : Settings) (range : Option Assist.LineRange) :
    List Note × Except Fault Result :=
  match Text.ofInput? session.input, settings.unit session.memory with
  | none, _ => ([], .error (.crash .inputNotText))
  | some _, .error cause => ([], .error (.crash (.indentation cause)))
  | some before, .ok unit =>
    (layoutNotes (Assist.covered range before),
      .ok (.text before (Assist.formatText unit range before)))

/-- The documents to format and how; a range of lines needs exactly one document. -/
def chosen (session : Session) (request : Request) (project : Workspace)
    (range : Option Assist.LineRange) : Except Fault (List Path × Document.Formatting) := do
  let found ← Selection.documents session.tree session.cwd project.settings.extensions
    project.settings.excluded (targets project request.paths)
  if range.isSome && found.length ≠ 1 then throw (.settings .linesNeedOneDocument)
  let unit ← orCrash ((project.settings.unit session.memory).mapError .indentation)
  return (found, { unit, range, write := writes request })

def performFiles (session : Session) (request : Request) (project : Workspace)
    (range : Option Assist.LineRange) : Performed :=
  match chosen session request project range with
  | .error fault =>
    { tree := session.tree, input := session.input, notes := [], result := .error fault }
  | .ok (paths, how) =>
    let (p, ended) := documents session.cwd how { tree := session.tree } paths
    { tree := p.tree
      input := session.input
      notes := p.notes
      result := match ended with
        | .error cause => .error (.crash cause)
        | .ok () => .ok (.files paths.length p.tally) }

/-- Do what is asked for.  The way it is to be shown plays no part. -/
def perform (session : Session) (request : Request) : Performed :=
  let (opening, project) := openProject session request.project
  let prepared : Except Fault (Workspace × Option Assist.LineRange) := do
    let project ← project
    return (project, ← rangeOf request)
  match prepared with
  | .error fault =>
    { tree := session.tree, input := session.input, notes := opening, result := .error fault }
  | .ok (project, range) =>
    if request.stdin then
      let (notes, result) := performInput session project.settings range
      { tree := session.tree, input := ByteArray.empty, notes := opening ++ notes, result }
    else
      let done := performFiles session request project range
      { done with notes := opening ++ done.notes }

/-- The check found a document that would change. -/
def Result.checkFails (request : Request) : Result → Bool
  | .text before formatted => request.check && decide (formatted ≠ before)
  | .files _ tally => request.check && !tally.changed.isEmpty

def Result.exit (request : Request) (result : Result) : Nat :=
  match result with
  | .text .. => if result.checkFails request then checkFailed else success
  | .files _ tally =>
    if !tally.failed.isEmpty then badDocument
    else if result.checkFails request then checkFailed
    else success

def pathTexts (comparisons : List Document.Comparison) : List String :=
  comparisons.map fun c => c.path.text

def Result.json (request : Request) (result : Result) : Json :=
  match result with
  | .text before formatted =>
    .obj [("command", .str "format"), ("ok", .bool (!result.checkFails request)),
      ("changed", .bool (decide (formatted ≠ before))),
      ("formatted", .str (String.ofList formatted))]
  | .files _ tally =>
    .obj [("command", .str "format"),
      ("ok", .bool (tally.failed.isEmpty && !result.checkFails request)),
      ("written", .bool (writes request)),
      ("changed", .strings (pathTexts tally.changed)),
      ("unchanged", .strings (tally.unchanged.map Path.text)),
      ("failed", .obj (tally.failed.map fun f => (f.1.text, .str f.2)))]

/-- The standard output of a successful run for a user. -/
def Result.output (request : Request) : Result → List Output
  | .text _ formatted => if request.check then [] else [.text (String.ofList formatted)]
  | .files _ tally =>
    if request.diff then tally.changed.map fun c => .text (String.ofList c.patch) else []

/-- The closing words of a successful run for a user. -/
def Result.notes (request : Request) (result : Result) : List Note :=
  match result with
  | .text .. => []
  | .files count tally =>
    let failures := if tally.failed.isEmpty then []
      else [.line (Advice.trimEnd (Advice.failed tally.failed))]
    let verdict := if result.checkFails request then
        [.line (Advice.trimEnd (Advice.unformatted (tally.changed.map (·.path))))]
      else if writes request && !tally.changed.isEmpty then
        [.line ("reformatted " ++ toString tally.changed.length ++ " of " ++ toString count
          ++ " document(s)")]
      else []
    failures ++ verdict

def run (session : Session) (request : Request) : Outcome :=
  let done := perform session request
  match done.result with
  | .error fault =>
    failed { session with tree := done.tree, input := done.input } request.json "format" done.notes
      fault
  | .ok result =>
    { exit := .ok (result.exit request)
      output := if request.json then [.value (result.json request)] else result.output request
      notes := done.notes ++ if request.json then [] else result.notes request
      tree := done.tree
      input := done.input }

end Format
end Command
end Reindent
