import Reindent.Buffer.Line

/-!
# Words of a line

A word is a number with a decimal point, or a longest run of characters that are neither
punctuation nor ASCII space.  The word at a column is the first one that touches the column.
-/

namespace Reindent
namespace Assist

/-- The punctuation that ends a word. -/
def punctuation : List Char :=
  ['\x60', '~', '!', '@', '#', '%', '^', '&', '*', '(', ')', '-', '=', '+', '[', '{', ']', '}',
    '\\', '|', ';', ':', '\'', '"', ',', '.', '<', '>', '/', '?']

/-- A character that can stand in a plain word. -/
def isWordPart (c : Char) : Bool :=
  !punctuation.contains c && !isSpace c

/-- The number with a decimal point at the front of a text: an optional sign, digits, a point, a
digit and word characters. -/
def numberHere? (text : Text) : Option Text :=
  let (sign, unsigned) := match text with
    | '-' :: rest => (['-'], rest)
    | other => ([], other)
  let whole := unsigned.takeWhile Char.isDigit
  match unsigned.dropWhile Char.isDigit with
  | '.' :: d :: rest =>
    if d.isDigit then some (sign ++ whole ++ '.' :: d :: rest.takeWhile isWordChar) else none
  | _ => none

/-- The word at the front of a text. -/
def wordHere? (text : Text) : Option Text :=
  match numberHere? text with
  | some number => some number
  | none =>
    match text.takeWhile isWordPart with
    | [] => none
    | word => some word

/-- A word and the columns where it starts and ends. -/
structure Word where
  start : Nat
  stop : Nat
  text : Text
  deriving DecidableEq, Repr

/-- The words of a text that stands at a column, after passing over `skip` of its characters. -/
def wordsFrom : Nat → Nat → Text → List Word
  | _, _, [] => []
  | column, skip + 1, _ :: rest => wordsFrom (column + 1) skip rest
  | column, 0, c :: rest =>
    match wordHere? (c :: rest) with
    | some word =>
      { start := column, stop := column + word.length, text := word } ::
        wordsFrom (column + 1) (word.length - 1) rest
    | none => wordsFrom (column + 1) 0 rest

/-- The words of a line, from left to right. -/
def words (line : Text) : List Word :=
  wordsFrom 0 0 line

/-- The first word of a line that a column touches. -/
def wordTouching? (line : Text) (column : Int) : Option Word :=
  (words line).find? fun word => decide (word.start ≤ column) && decide (column ≤ word.stop)

/-- The word at a position. -/
def wordAt (text : Text) (position : Position) : Except Buffer.NoSuchLine (Option Word) := do
  let line ← Buffer.lineAt text position.line
  return wordTouching? line.text position.character

def wordSpanAt (text : Text) (position : Position) : Except Buffer.NoSuchLine (Option Span) := do
  return (← wordAt text position).map fun word =>
    { start := { line := position.line, character := word.start }
      stop := { line := position.line, character := word.stop } }

def descriptions : List (Text × String) :=
  [("defMeta".toList, "Define metadata for a Fubelt page component")]

/-- The description of the word at a position, if it has one. -/
def describe (text : Text) (position : Position) : Except Buffer.NoSuchLine (Option String) := do
  return (← wordSpanAt text position).bind fun span =>
    descriptions.lookup (Buffer.textIn text span)

end Assist
end Reindent
