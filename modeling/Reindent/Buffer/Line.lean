import Reindent.Buffer.Position

/-!
# Lines of a buffer

A line as an editor shows it: the carriage returns at its end do not belong to its text, though
they count for offsets.
-/

namespace Reindent
namespace Buffer

def lineCount (text : Text) : Nat :=
  text.lines.length

/-- A line of a text and the place of its first character that is not blank. -/
structure Line where
  number : Int
  text : Text
  firstNonBlank : Nat
  deriving DecidableEq, Repr

def Line.isBlank (line : Line) : Bool :=
  line.firstNonBlank == line.text.length

/-- A line was asked for that the text does not have. -/
structure NoSuchLine where
  line : Int
  count : Nat
  deriving DecidableEq, Repr

/-- The lines that exist are named in the message. -/
def NoSuchLine.message (e : NoSuchLine) : String :=
  let line := e.line
  let last := e.count - 1
  s!"line {line} out of range (0..{last})"

/-- A line without the carriage returns at its end. -/
def withoutReturns (line : Text) : Text :=
  (line.reverse.dropWhile (· = '\r')).reverse

/-- The line of a text with a given number. -/
def lineAt (text : Text) (number : Int) : Except NoSuchLine Line :=
  match if number < 0 then none else text.lines[number.toNat]? with
  | none => .error { line := number, count := lineCount text }
  | some raw =>
    let shown := withoutReturns raw
    .ok { number, text := shown, firstNonBlank := shown.length - (Text.trimStart shown).length }

end Buffer
end Reindent
