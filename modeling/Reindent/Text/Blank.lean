/-!
# Character classes

The classes of characters that the line rules are built on: the blanks removed from both ends of a
line, and the ASCII spaces and word characters that the recognisers of lines and tags look for.
-/

namespace Reindent

/-- The code points that count as blank, as closed ranges in increasing order. -/
def blankRanges : List (Nat × Nat) :=
  [(0x0009, 0x000D), (0x001C, 0x0020), (0x0085, 0x0085), (0x00A0, 0x00A0), (0x1680, 0x1680),
    (0x2000, 0x200A), (0x2028, 0x2029), (0x202F, 0x202F), (0x205F, 0x205F), (0x3000, 0x3000)]

/-- A blank is trimmed from the ends of a line.  The byte-order mark and the zero-width space are
not blank. -/
def isBlank (c : Char) : Bool :=
  blankRanges.any fun range => decide (range.1 ≤ c.toNat) && decide (c.toNat ≤ range.2)

/-- The six ASCII spaces. -/
def isSpace (c : Char) : Bool :=
  c = ' ' || c = '\t' || c = '\n' || c = '\r' || c = '\x0b' || c = '\x0c'

/-- ASCII letters, digits and the underscore. -/
def isWordChar (c : Char) : Bool :=
  c.isAlphanum || c = '_'

/-- The characters of a tag's name. -/
def isNameChar (c : Char) : Bool :=
  isWordChar c || c = '-'

end Reindent
