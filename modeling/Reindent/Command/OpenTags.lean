import Reindent.Arguments.Parse
import Reindent.Command.Session
import Reindent.Markup.OpenTag

/-!
# The open-tags command

Listing the tags of a document that are still open at a place in it.
-/

namespace Reindent
namespace Command
namespace OpenTags

/-- What the open-tags command is asked for.  An offset counts before a line; a line and a column
count from one. -/
structure Request where
  file : String
  json : Bool := false
  offset : Arguments.Choice Int := .absent
  line : Arguments.Choice Int := .absent
  column : Arguments.Choice Int := .absent
  deriving DecidableEq, Repr

/-- The position of a line and a column, the first column if none is chosen. -/
def positionOf (line : Int) : Arguments.Choice Int → Except Crash Position
  | .absent => .ok { line := line - 1, character := 0 }
  | .blank => .error .blankPosition
  | .value column => .ok { line := line - 1, character := column - 1 }

/-- The offset that was asked for, by default the end of the text.  A choice without a value stops
the command when it is looked at. -/
def Request.place (request : Request) (text : Text) : Except Crash Int :=
  match request.offset, request.line with
  | .value offset, _ => .ok offset
  | .blank, _ => .error .blankOffset
  | .absent, .value line => do return Buffer.offsetAt text (← positionOf line request.column)
  | .absent, .blank => .error .blankPosition
  | .absent, .absent => .ok text.length

/-- The text of the document and the place in it that was asked for. -/
def looked (session : Session) (request : Request) : Except Fault (Text × Int) := do
  let text ← Document.read session.tree session.cwd (Path.ofString request.file)
  return (text, ← orCrash (request.place text))

def run (session : Session) (request : Request) : Outcome :=
  match looked session request with
  | .error fault => failed session request.json "open-tags" [] fault
  | .ok (text, place) =>
    let names := (Markup.openTags text place).map String.ofList
    let output := if request.json then
        [Output.value (.obj [("command", .str "open-tags"), ("ok", .bool true),
          ("offset", .int place), ("tags", .strings names)])]
      else names.map fun name => .text (name ++ "\n")
    session.finish success output []

end OpenTags
end Command
end Reindent
