import Reindent.Text.Basic

/-!
# Texts as bytes

Texts are written as UTF-8.  Reading turns every kind of line end into a newline; a document also
loses one byte-order mark at its front, whereas the standard input keeps it.
-/

namespace Reindent
namespace Text

/-- A text with every carriage return, with or without a newline after it, made a newline. -/
def plainLineEnds : Text → Text
  | [] => []
  | '\r' :: '\n' :: rest => '\n' :: plainLineEnds rest
  | c :: rest => (if c = '\r' then '\n' else c) :: plainLineEnds rest

/-- The characters of well-formed UTF-8. -/
def ofUtf8? (bytes : ByteArray) : Option Text :=
  (String.fromUTF8? bytes).map String.toList

def toUtf8 (t : Text) : ByteArray :=
  (String.ofList t).toUTF8

/-- The UTF-8 form of a text reads back. -/
theorem ofUtf8?_toUtf8 (t : Text) : ofUtf8? (toUtf8 t) = some t := by
  have h : String.fromUTF8? (String.ofList t).toUTF8 = some (String.ofList t) :=
    dif_pos (String.ofList t).isValidUTF8
  rw [ofUtf8?, toUtf8, h, Option.map_some, String.toList_ofList]

def markBytes : List UInt8 := [0xEF, 0xBB, 0xBF]

/-- The bytes are the start of a byte-order mark, without the whole of it. -/
def isPartialMark (bytes : ByteArray) : Bool :=
  decide (bytes.size < 3) && bytes.toList.isPrefixOf markBytes

/-- The text of the standard input. -/
def ofInput? (bytes : ByteArray) : Option Text :=
  (ofUtf8? bytes).map plainLineEnds

/-- The text of a document.  The start of a byte-order mark, with nothing after it, reads as the
empty text. -/
def ofDocument? (bytes : ByteArray) : Option Text :=
  if isPartialMark bytes then some []
  else (ofUtf8? bytes).map fun t => plainLineEnds (dropMark t)

end Text
end Reindent
