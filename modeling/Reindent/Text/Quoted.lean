import Reindent.Text.Basic
import Reindent.Text.Printable

/-!
# Quoted texts

How a text is shown inside a message: between quotes, with escapes for quotes, backslashes and
characters that cannot be seen.  The quotes are single unless the text has a single quote and no
double quote.
-/

namespace Reindent
namespace Text

/-- A number in lower-case hexadecimal digits, filled with zeros up to a width. -/
def hex (width n : Nat) : Text :=
  let digits := Nat.toDigits 16 n
  List.replicate (width - digits.length) '0' ++ digits

/-- A character as it is shown between the given quotes. -/
def quotedChar (quote : Char) (c : Char) : Text :=
  if c = quote || c = '\\' then ['\\', c]
  else if c = '\n' then ['\\', 'n']
  else if c = '\r' then ['\\', 'r']
  else if c = '\t' then ['\\', 't']
  else if isPrintable c then [c]
  else if c.toNat < 0x100 then '\\' :: 'x' :: hex 2 c.toNat
  else if c.toNat < 0x10000 then '\\' :: 'u' :: hex 4 c.toNat
  else '\\' :: 'U' :: hex 8 c.toNat

def quoteFor (t : Text) : Char :=
  if t.contains '\'' && !t.contains '"' then '"' else '\''

/-- A text as it is shown inside a message. -/
def quoted (t : Text) : Text :=
  let quote := quoteFor t
  quote :: t.flatMap (quotedChar quote) ++ [quote]

def quotedString (s : String) : String :=
  String.ofList (quoted s.toList)

end Text
end Reindent
