import Reindent.Buffer.Edit
import Reindent.Layout.Basic

/-!
# Formatting as an edit

Formatting a buffer, or a span of it, is at most one edit: there is none when formatting changes
nothing.  A span is formatted on its own, so the text around it stays as it is.
-/

namespace Reindent
namespace Assist

/-- The edit that formats a whole text. -/
def formatAll (unit : Text) (text : Text) : Option Edit :=
  let formatted := Layout.format unit text
  if formatted = text then none
  else some { span := Buffer.fullSpan text, newText := formatted }

/-- The edit that formats what a span covers. -/
def formatSpan (unit : Text) (text : Text) (span : Span) : Option Edit :=
  let covered := Buffer.textIn text span
  let formatted := Layout.format unit covered
  if formatted = covered then none
  else some { span, newText := formatted }

/-- A text with an edit made, if there is one. -/
def applied (text : Text) (edit : Option Edit) : Text :=
  match edit with
  | none => text
  | some e => Buffer.applyOne text e

/-- A first and a last line, counted from one, the last one included. -/
structure LineRange where
  first : Int
  last : Int
  deriving DecidableEq, Repr

/-- The span of a range of lines, up to the start of the line after it. -/
def LineRange.span (range : LineRange) : Span :=
  { start := { line := range.first - 1, character := 0 }
    stop := { line := range.last, character := 0 } }

/-- The part of a text that is laid out: the whole of it, or a range of its lines. -/
def covered (range : Option LineRange) (text : Text) : Text :=
  match range with
  | none => text
  | some lines => Buffer.textIn text lines.span

/-- A text formatted as a whole, or only in a range of its lines. -/
def formatText (unit : Text) (range : Option LineRange) (text : Text) : Text :=
  match range with
  | none => Layout.format unit text
  | some lines => applied text (formatSpan unit text lines.span)

end Assist
end Reindent
