import Reindent.Tool.Files

/-!
# Calling tools

The tools that are served, and what each call of one does.  Only the tool on files can change
anything.
-/

namespace Reindent
namespace Tool

open Command (Session Note)

/-- A tool as it is offered to clients. -/
structure Entry where
  name : String
  description : String
  deriving DecidableEq, Repr

def catalog : List Entry :=
  [{ name := "fubelt_format"
     description := "Re-indent a Fubelt document.\n\n"
      ++ "Returns JSON with the formatted text and whether it changed." },
    { name := "fubelt_format_range"
      description :=
        "Re-indent only part of a Fubelt document (0-based line/character positions).\n\n"
        ++ "Text outside the range is returned untouched." },
    { name := "fubelt_open_tags"
      description := "List tags still open at an offset, outermost first." },
    { name := "fubelt_on_type"
      description := "Return close-tag assist edits for a just-typed \x60>\x60 or \x60/\x60." },
    { name := "fubelt_format_files"
      description := "Format Fubelt documents on disk.\n\n"
        ++ "Use check=True to only report which documents would change.\n"
        ++ "Returns JSON with changed/unchanged/failed path lists." }]

inductive Call where
  | format (text : Text) (indent : Indent)
  | formatSpan (text : Text) (span : Span) (indent : Indent)
  | openTags (text : Text) (offset : Option Int)
  | onType (text : Text) (position : Position) (typed : Text)
  | formatFiles (request : FilesRequest)
  deriving DecidableEq, Repr

/-- What is logged for laying out a text, if the indentation can be used. -/
def indentNotes (memory : Nat) (indent : Indent) (text : Text) : List Note :=
  match indent.unit memory with
  | .ok _ => Command.layoutNotes text
  | .error _ => []

/-- What a call does. -/
def Call.run (session : Session) (call : Call) : Reply :=
  let plain (notes : List Note) (answer : Except Crash Json) : Reply :=
    { session, notes, answer := answer.map Json.compact }
  match call with
  | .format text indent =>
    plain (indentNotes session.memory indent text) (formatAll session.memory text indent)
  | .formatSpan text span indent =>
    plain (indentNotes session.memory indent (Buffer.textIn text span))
      (Tool.formatSpan session.memory text span indent)
  | .openTags text offset => plain [] (.ok (Tool.openTags text offset))
  | .onType text position typed => plain [] (.ok (Tool.onType text position typed))
  | .formatFiles request => Tool.formatFiles session request

end Tool
end Reindent
