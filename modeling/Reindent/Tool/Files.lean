import Reindent.Command.Line
import Reindent.Tool.Text

/-!
# The tool on files

Formatting documents for a client.  The tool is the format command with its report as JSON, so the
paths that a client sends are read like arguments of a command line.
-/

namespace Reindent
namespace Tool

open Command (Session Outcome Output Note)

/-- What a client asks for: documents to format, or only to check. -/
structure FilesRequest where
  root : Option String := none
  paths : List String := []
  check : Bool := false
  deriving DecidableEq, Repr

def FilesRequest.arguments (request : FilesRequest) : List String :=
  ["format", "--json"]
    ++ (match Command.nonEmpty request.root with
      | some root => ["--root", root]
      | none => [])
    ++ (if request.check then ["--check"] else [])
    ++ request.paths

/-- What the command line of a request does.  It never names another command. -/
def FilesRequest.outcome (session : Session) (request : FilesRequest) : Outcome :=
  match Command.Line.read request.arguments with
  | .error stop => Command.Line.stopped session stop
  | .ok { invocation := .format format, .. } => Command.Format.run session format
  | .ok _ => session.finish Command.success [] []

/-- How much of an output that is no report is passed on. -/
def excerptLength : Nat := 500

/-- The answer to a client: the report of the command, or a failure that quotes its output. -/
def answerOf (output : List Output) : String :=
  match output with
  | [.value report] => report.pretty
  | other =>
    let shown := Text.trim (Command.renderOutput other).toList
    let message := if shown = [] then "command produced no output"
      else String.ofList (shown.take excerptLength)
    (failure "format" message).compact

/-- What a tool leaves behind: the session, what was logged, and the answer. -/
structure Reply where
  session : Session
  notes : List Note
  answer : Except Crash String

def formatFiles (session : Session) (request : FilesRequest) : Reply :=
  let outcome := request.outcome session
  { session := { session with tree := outcome.tree, input := outcome.input }
    notes := outcome.notes
    answer := outcome.exit.map fun _ => answerOf outcome.output }

end Tool
end Reindent
