import Reindent.Text.Basic

/-!
# Tags of a text

A tag is `<`, an optional `/`, a name and everything up to the next `>`.  `tags` lists the tags of a
text from left to right, each with the offsets where it starts and ends.  A `<` that starts no tag
is passed over, and a tag never starts inside another one.
-/

namespace Reindent
namespace Markup

/-- What a tag does to the element of its name. -/
inductive TagKind where
  | opening
  | closing
  | selfClosing
  deriving DecidableEq, Repr

/-- A tag of a text, with the offset of its `<` and the offset after its `>`. -/
structure Tag where
  start : Nat
  stop : Nat
  name : Text
  kind : TagKind
  deriving DecidableEq, Repr

/-- The part of a tag after `<` and `/`, read at the front of a text: the name, the characters
between the name and `>`, and nothing else. -/
def tagBody? (text : Text) : Option (Text × Text) :=
  let name := text.takeWhile isNameChar
  let after := text.dropWhile isNameChar
  if name = [] || !after.contains '>' then none
  else some (name, after.takeWhile (· ≠ '>'))

/-- The tag at the front of a text, as its kind, its name and its length. -/
def tagHere? : Text → Option (TagKind × Text × Nat)
  | '<' :: '/' :: rest =>
    (tagBody? rest).map fun (name, inner) => (.closing, name, name.length + inner.length + 3)
  | '<' :: rest =>
    (tagBody? rest).map fun (name, inner) =>
      (if ['/'].isSuffixOf inner then .selfClosing else .opening, name,
        name.length + inner.length + 2)
  | _ => none

/-- The tags of a text that stands at an offset, after passing over `skip` of its characters. -/
def tagsFrom : Nat → Nat → Text → List Tag
  | _, _, [] => []
  | offset, skip + 1, _ :: rest => tagsFrom (offset + 1) skip rest
  | offset, 0, c :: rest =>
    match tagHere? (c :: rest) with
    | some (kind, name, size) =>
      { start := offset, stop := offset + size, name, kind } ::
        tagsFrom (offset + 1) (size - 1) rest
    | none => tagsFrom (offset + 1) 0 rest

/-- The tags of a text, from left to right. -/
def tags (text : Text) : List Tag :=
  tagsFrom 0 0 text

end Markup
end Reindent
