import Reindent.Text.Basic

/-!
# Recognising a line

The tests that decide what a trimmed line looks like.  Each works on the whole line, which may hold
any characters, newlines included, and none of them can fail.
-/

namespace Reindent
namespace Line

/-- The line starts a tag, opening or closing, that is not the start of a script or style block. -/
def startsTag (line : Text) : Bool :=
  "<".toList.isPrefixOf line && !"<script>".toList.isPrefixOf line
    && !"<style>".toList.isPrefixOf line

/-- The line starts a closing tag that does not end a script or style block. -/
def startsClosingTag (line : Text) : Bool :=
  "</".toList.isPrefixOf line && !"</script>".toList.isPrefixOf line
    && !"</style>".toList.isPrefixOf line

/-- The words that start a statement, each with the space after it. -/
def statementWords : List Text :=
  ["import ", "export ", "const ", "let ", "var ", "function ", "class "].map String.toList

/-- After any ASCII spaces the text goes on with one of the given characters. -/
def continuesWith (marks : List Char) (rest : Text) : Bool :=
  match rest.dropWhile isSpace with
  | [] => false
  | c :: _ => marks.contains c

/-- The line starts with `return` and an opening parenthesis. -/
def startsReturn (line : Text) : Bool :=
  "return".toList.isPrefixOf line && continuesWith ['('] (line.drop 6)

/-- The line starts with a closing brace and then `)` or `;`. -/
def startsBlockEnd : Text → Bool
  | '}' :: rest => continuesWith [')', ';'] rest
  | _ => false

/-- The characters that can start an identifier. -/
def isIdentifierStart (c : Char) : Bool :=
  c.isAlpha || c = '_' || c = '$'

/-- The characters that can follow the start of an identifier. -/
def isIdentifierChar (c : Char) : Bool :=
  isWordChar c || c = '$'

/-- The line starts with an identifier and then `=`, `(` or `{`. -/
def startsUse : Text → Bool
  | [] => false
  | c :: rest =>
    isIdentifierStart c && continuesWith ['=', '(', '{'] (rest.dropWhile isIdentifierChar)

/-- The line reads as a statement of script code. -/
def isStatement (line : Text) : Bool :=
  statementWords.any (·.isPrefixOf line) || startsReturn line || startsBlockEnd line
    || startsUse line

/-- The text starts with a closing tag: `</`, a non-empty name part without `>`, and `>`. -/
def closesHere : Text → Bool
  | '<' :: '/' :: c :: rest => c ≠ '>' && rest.contains '>'
  | _ => false

/-- A closing tag starts before the first newline of the text. -/
def closesAhead : Text → Bool
  | [] => false
  | c :: rest => closesHere (c :: rest) || (c ≠ '\n' && closesAhead rest)

/-- An element starts at the front of the text and a closing tag follows it on the same line. -/
def elementHere : Text → Bool
  | '<' :: c :: rest =>
    c ≠ '/' && c ≠ '>' &&
      match rest.dropWhile (· ≠ '>') with
      | [] => false
      | _ :: after => closesAhead after
  | _ => false

/-- The line holds an element and its closing tag. -/
def hasInlineElement : Text → Bool
  | [] => false
  | c :: rest => elementHere (c :: rest) || hasInlineElement rest

/-- The line ends with a self-closing tag. -/
def isSelfClosing (line : Text) : Bool :=
  "/>".toList.isSuffixOf line

def openers : List Char := ['{', '[', '(']

def closers : List Char := ['}', ']', ')']

/-- The first character of the line is one of the given brackets. -/
def startsWithAny (brackets : List Char) : Text → Bool
  | [] => false
  | c :: _ => brackets.contains c

/-- The opening brackets of the line less its closing brackets. -/
def bracketBalance (line : Text) : Int :=
  (line.countP openers.contains : Int) - (line.countP closers.contains : Int)

/-- The line ends, but for one final newline, with a word character, `(` and an opening brace: a
call whose argument is an object literal. -/
def opensCallObject (line : Text) : Bool :=
  let reversed := match line.reverse with
    | '\n' :: rest => rest
    | other => other
  match reversed with
  | '{' :: beforeBrace =>
    match beforeBrace.dropWhile isSpace with
    | '(' :: beforeCall =>
      match beforeCall.dropWhile isSpace with
      | c :: _ => isWordChar c
      | [] => false
    | _ => false
  | _ => false

/-- The line ends with a closing bracket and a comma. -/
def isContinuation (line : Text) : Bool :=
  [['}', ','], [']', ','], [')', ',']].any (·.isSuffixOf line)

/-- How the level changes after a statement line: a continuation leaves it, a call that opens an
object literal adds one, and any other line adds its bracket balance. -/
def levelChange (line : Text) : Int :=
  if isContinuation line then 0
  else if opensCallObject line then 1
  else bracketBalance line

end Line
end Reindent
