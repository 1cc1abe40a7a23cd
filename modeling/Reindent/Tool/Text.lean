import Reindent.Assist.ClosingTag
import Reindent.Assist.Formatting
import Reindent.FileTree.Probe
import Reindent.Json.Basic

/-!
# Tools on texts

The operations that a client can ask for on a text it sends along.  Each answers with a JSON object
that names the tool and says whether it succeeded.
-/

namespace Reindent
namespace Tool

inductive IndentError where
  | sizeTooSmall
  | unknownStyle (style : String)
  /-- There cannot be so many spaces. -/
  | notWritable (cause : Text.RepeatError)
  deriving DecidableEq, Repr

def IndentError.message : IndentError → String
  | .sizeTooSmall => "indent_size must be >= 1."
  | .unknownStyle style => "Unsupported indent_style: " ++ Text.quotedString style
  | .notWritable cause => cause.message

/-- How a client wants lines to be indented. -/
structure Indent where
  style : String := "tab"
  size : Int := 4
  deriving DecidableEq, Repr

/-- The unit of an indentation.  The size only counts for spaces. -/
def Indent.unit (indent : Indent) (memory : Nat) : Except IndentError Text :=
  if indent.style = "tab" then .ok Layout.tab
  else if indent.style = "space" then
    if indent.size < 1 then .error .sizeTooSmall
    else (Layout.checkedSpaces indent.size memory).mapError .notWritable
  else .error (.unknownStyle indent.style)

/-- The answer of a command that failed. -/
def failure (command message : String) : Json :=
  .obj [("command", .str command), ("ok", .bool false), ("error", .str message)]

/-- The answer of a tool that gives back a whole text. -/
def formatted (command : String) (changed : Bool) (text : Text) : Json :=
  .obj [("command", .str command), ("ok", .bool true), ("changed", .bool changed),
    ("formatted", .str (String.ofList text))]

/-- The answer of a tool that indents.  An indentation that the client may not ask for is a failure
of the tool; one that cannot be written is a crash. -/
def withUnit (memory : Nat) (command : String) (indent : Indent) (answer : Text → Json) :
    Except Crash Json :=
  match indent.unit memory with
  | .error (.notWritable cause) => .error (.indentation cause)
  | .error e => .ok (failure command e.message)
  | .ok unit => .ok (answer unit)

/-- Format a whole text. -/
def formatAll (memory : Nat) (text : Text) (indent : Indent) : Except Crash Json :=
  withUnit memory "format" indent fun unit =>
    let result := Layout.format unit text
    formatted "format" (decide (result ≠ text)) result

/-- Format a span of a text and give back the whole text. -/
def formatSpan (memory : Nat) (text : Text) (span : Span) (indent : Indent) :
    Except Crash Json :=
  withUnit memory "format_range" indent fun unit =>
    let edit := Assist.formatSpan unit text span
    formatted "format_range" edit.isSome (Assist.applied text edit)

/-- List the tags still open at an offset, at the end of the text if none is given. -/
def openTags (text : Text) (offset : Option Int) : Json :=
  let place := offset.getD text.length
  .obj [("command", .str "open_tags"), ("ok", .bool true), ("offset", .int place),
    ("tags", .strings ((Markup.openTags text place).map String.ofList))]

def positionJson (position : Position) : Json :=
  .arr [.int position.line, .int position.character]

/-- An edit with the positions where its span starts and ends. -/
def editJson (edit : Edit) : Json :=
  .obj [("start", positionJson edit.span.start), ("end", positionJson edit.span.stop),
    ("new_text", .str (String.ofList edit.newText))]

/-- Give the edits that a character just typed calls for. -/
def onType (text : Text) (position : Position) (typed : Text) : Json :=
  match Assist.onType text position typed with
  | .error e => failure "on_type" e.message
  | .ok edit =>
    .obj [("command", .str "on_type"), ("ok", .bool true),
      ("edits", .arr (edit.toList.map editJson))]

end Tool
end Reindent
