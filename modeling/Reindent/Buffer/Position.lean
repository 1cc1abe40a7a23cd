import Reindent.Text.Basic

/-!
# Positions and offsets

A position is a line and a character of that line, both from zero; an offset counts the characters
from the start of the text.  Any integers make a position or an offset: those outside the text are
moved to its nearest end, and a character past the end of its line to the end of that line.
-/

namespace Reindent

/-- A line and a character of that line, both from zero. -/
structure Position where
  line : Int
  character : Int
  deriving DecidableEq, Repr

namespace Position

instance : LT Position where
  lt p q := p.line < q.line ∨ (p.line = q.line ∧ p.character < q.character)

instance : LE Position where
  le p q := p.line < q.line ∨ (p.line = q.line ∧ p.character ≤ q.character)

instance (p q : Position) : Decidable (p < q) :=
  inferInstanceAs (Decidable (p.line < q.line ∨ (p.line = q.line ∧ p.character < q.character)))

instance (p q : Position) : Decidable (p ≤ q) :=
  inferInstanceAs (Decidable (p.line < q.line ∨ (p.line = q.line ∧ p.character ≤ q.character)))

end Position

/-- The stretch from one position to another. -/
structure Span where
  start : Position
  stop : Position
  deriving DecidableEq, Repr

/-- A span is empty when its two positions are the same. -/
def Span.isEmpty (span : Span) : Bool :=
  decide (span.start = span.stop)

namespace Buffer

/-- An integer moved into the range from zero to a limit. -/
def clamp (limit : Nat) (n : Int) : Nat :=
  min n.toNat limit

/-- The offset at which a line starts: the length of the lines before it, each with its newline. -/
def lineStart (text : Text) (line : Nat) : Nat :=
  ((text.lines.take line).flatMap fun l => l ++ ['\n']).length

def offsetAt (text : Text) (position : Position) : Nat :=
  if position.line < 0 then 0
  else
    match text.lines[position.line.toNat]? with
    | none => text.length
    | some line =>
      lineStart text position.line.toNat + clamp line.length position.character

def positionAt (text : Text) (offset : Int) : Position :=
  let before := text.take (clamp text.length offset)
  { line := before.count '\n'
    character := (before.reverse.takeWhile (· ≠ '\n')).length }

/-- The characters from one offset up to another, none when the second comes first. -/
def slice (text : Text) (start stop : Nat) : Text :=
  (text.drop start).take (stop - start)

/-- The characters that a span covers. -/
def textIn (text : Text) (span : Span) : Text :=
  slice text (offsetAt text span.start) (offsetAt text span.stop)

def fullSpan (text : Text) : Span :=
  { start := positionAt text 0, stop := positionAt text text.length }

end Buffer
end Reindent
