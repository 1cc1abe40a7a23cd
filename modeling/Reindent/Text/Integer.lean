import Reindent.Text.Basic
import Reindent.Text.Digit

/-!
# Reading whole numbers

A whole number is an optional sign and decimal digits of any script, with single underscores
allowed between digits and spaces around.  A text all in ASCII may have ASCII spaces around it; in
any other text the blanks outside ASCII count as well.
-/

namespace Reindent
namespace Text

/-- The largest number of digits that is read or shown. -/
def digitLimit : Nat := 4300

/-- A number has too many decimal digits to be shown. -/
def tooLongToShow (n : Int) : Bool :=
  decide (Nat.pow 10 digitLimit ≤ n.natAbs)

/-- A character that may stand around a number.  The ASCII separators are not among them. -/
def isNumberPadding (c : Char) : Bool :=
  isSpace c || (decide (0x7F < c.toNat) && isBlank c)

/-- The values of the digits of a number.  An underscore has to stand between two digits, which
`afterDigit` keeps track of. -/
def digitValues? (afterDigit : Bool) : Text → Option (List Nat)
  | [] => if afterDigit then some [] else none
  | c :: cs =>
    if c = '_' then if afterDigit then digitValues? false cs else none
    else do
      let d ← digitValue? c
      let ds ← digitValues? true cs
      return d :: ds

def ofDigits (digits : List Nat) : Nat :=
  digits.foldl (fun n d => 10 * n + d) 0

/-- The natural number that a text without sign and spaces stands for. -/
def natural? (t : Text) : Option Nat := do
  let digits ← digitValues? false t
  if digitLimit < digits.length then none else some (ofDigits digits)

/-- The whole number that a text stands for. -/
def integer? (t : Text) : Option Int :=
  let start := t.dropWhile isNumberPadding
  match (start.reverse.dropWhile isNumberPadding).reverse with
  | '-' :: digits => (natural? digits).map fun n => -(n : Int)
  | '+' :: digits => (natural? digits).map fun n => (n : Int)
  | digits => (natural? digits).map fun n => (n : Int)

end Text
end Reindent
