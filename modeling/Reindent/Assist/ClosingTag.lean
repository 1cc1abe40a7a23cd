import Reindent.Buffer.Line
import Reindent.Buffer.Edit
import Reindent.Markup.OpenTag
import Reindent.Text.Quoted

/-!
# Closing tags while typing

What the editor adds after a typed character.  After `>` at the end of an opening tag, the closing
tag goes on the next line if that line is blank; after the `/` of `</`, the name of the innermost
open tag is completed.
-/

namespace Reindent
namespace Assist

/-- Why nothing can be added for a typed character. -/
inductive TypingError where
  | notTrigger (typed : Text)
  | noSuchLine (cause : Buffer.NoSuchLine)
  deriving DecidableEq, Repr

def TypingError.message : TypingError → String
  | .notTrigger typed => "Not an on-type trigger character: " ++ String.ofList typed.quoted
  | .noSuchLine cause => cause.message

/-- The name of an opening tag at the front of a text whose `>` ends the text. -/
def openingTagHere? : Text → Option Text
  | '<' :: c :: rest =>
    if c.isAlpha && decide ((rest.dropWhile isNameChar).dropWhile (· ≠ '>') = ['>']) then
      some (c :: rest.takeWhile isNameChar)
    else none
  | _ => none

/-- The name of the opening tag that ends a line, the one that starts first. -/
def openingTagAtEnd? : Text → Option Text
  | [] => none
  | c :: rest => (openingTagHere? (c :: rest)).or (openingTagAtEnd? rest)

def closingTag (name : Text) : Text :=
  '<' :: '/' :: name ++ ['>']

/-- The line after a given one exists and is blank. -/
def nextLineIsBlank (text : Text) (line : Int) : Bool :=
  match Buffer.lineAt text (line + 1) with
  | .ok next => Text.trim next.text == []
  | .error _ => false

/-- What a typed `>` adds. -/
def afterTagEnd (text : Text) (position : Position) : Except Buffer.NoSuchLine (Option Edit) := do
  let line ← Buffer.lineAt text position.line
  match openingTagAtEnd? line.text with
  | none => return none
  | some name =>
    if Text.includes "</".toList line.text || "/>".toList.isSuffixOf (Text.trim line.text)
        || Text.includes (closingTag name) (text.drop (Buffer.offsetAt text position))
        || !nextLineIsBlank text position.line then
      return none
    else
      return some (.insert { line := position.line + 1, character := 0 }
        (List.replicate line.firstNonBlank ' ' ++ closingTag name))

/-- What a typed `/` adds. -/
def afterSlash (text : Text) (position : Position) : Except Buffer.NoSuchLine (Option Edit) := do
  let line ← Buffer.lineAt text position.line
  let before := line.text.take (position.character - 1).toNat
  if !(['<'].isSuffixOf (Text.trim before)) then return none
  else
    match (Markup.openTags text (Buffer.offsetAt text position)).getLast? with
    | none => return none
    | some name => return some (.insert position (name ++ ['>']))

/-- The edit that a character just typed at a position calls for. -/
def onType (text : Text) (position : Position) (typed : Text) :
    Except TypingError (Option Edit) :=
  if typed = ['>'] then (afterTagEnd text position).mapError .noSuchLine
  else if typed = ['/'] then (afterSlash text position).mapError .noSuchLine
  else if typed = ['\n'] then .ok none
  else .error (.notTrigger typed)

end Assist
end Reindent
