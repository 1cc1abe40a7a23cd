import Reindent.Json.Basic
import Reindent.Layout.Basic

/-!
# What a command writes

Standard output carries texts and JSON values.  Standard error carries lines for the user and log
entries; entries for debugging only appear when they are asked for.
-/

namespace Reindent
namespace Command

/-- A part of the standard output. -/
inductive Output where
  | text (s : String)
  /-- A value on lines of its own, indented. -/
  | value (v : Json)
  /-- A value on one line. -/
  | record (v : Json)

def Output.rendered : Output → String
  | .text s => s
  | .value v => v.pretty ++ "\n"
  | .record v => v.compact ++ "\n"

def renderOutput (outputs : List Output) : String :=
  String.join (outputs.map Output.rendered)

/-- How important a log entry is. -/
inductive Level where
  | debug
  | warning
  deriving DecidableEq, Repr

def Level.name : Level → String
  | .debug => "DEBUG"
  | .warning => "WARNING"

/-- A part of the standard error. -/
inductive Note where
  | line (text : String)
  | log (level : Level) (source text : String)
  deriving DecidableEq, Repr

/-- The line of a note, if it is shown. -/
def Note.shown? (verbose : Bool) : Note → Option String
  | .line text => some text
  | .log level source text =>
    if level = .warning || verbose then some (level.name ++ " " ++ source ++ ": " ++ text)
    else none

def renderNotes (verbose : Bool) (notes : List Note) : String :=
  String.join ((notes.filterMap (Note.shown? verbose)).map fun line => line ++ "\n")

def closingNote (closing : Layout.Closing) : Note :=
  .log .debug "fubelt.format"
    ("closing " ++ String.ofList closing.marker ++ ": " ++ toString closing.held
      ++ " collected line(s) at indent " ++ toString closing.level)

def layoutNotes (text : Text) : List Note :=
  (Layout.closings {} (Layout.trimmedLines text)).map closingNote

end Command
end Reindent
