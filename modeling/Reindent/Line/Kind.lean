import Reindent.Line.Recognizer

/-!
# Kinds of markup lines

Every line outside the script and style blocks has exactly one kind.  A line can pass several of the
tests at once, so the order in which `Line.kind` asks them is part of the rule.
-/

namespace Reindent
namespace Line

/-- What a line outside the blocks is taken for. -/
inductive Kind where
  | statement
  | inlineElement
  | closingTag
  | selfClosing
  | openingTag
  | other
  deriving DecidableEq, Repr

/-- A tag-like line switches statements off, for itself and for all lines after it. -/
def isTagLike (line : Text) : Bool :=
  startsTag line || startsClosingTag line

/-- The kind of a line, where `tagSeen` says whether a tag-like line came before it. -/
def kind (tagSeen : Bool) (line : Text) : Kind :=
  if isStatement line && !(tagSeen || isTagLike line) then .statement
  else if hasInlineElement line && !"</".toList.isPrefixOf line then .inlineElement
  else if startsClosingTag line then .closingTag
  else if isSelfClosing line then .selfClosing
  else if startsTag line && ">".toList.isSuffixOf line && !"</".toList.isPrefixOf line then
    .openingTag
  else .other

/-- A line of no other kind closes a group when it starts with a closing brace or parenthesis. -/
def closesGroup (line : Text) : Bool :=
  startsWithAny ['}', ')'] line

/-- A line of no other kind opens a group when it ends with `(`, or with an opening brace and has no
closing one. -/
def opensGroup (line : Text) : Bool :=
  "(".toList.isSuffixOf line || (['{'].isSuffixOf line && !line.contains '}')

end Line
end Reindent
