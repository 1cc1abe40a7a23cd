import Reindent.Markup.Tag

/-!
# Open tags

The tags still open at an offset.  A closing tag closes the nearest open tag of its name, which need
not be the innermost one; a closing tag without an open partner does nothing.
-/

namespace Reindent
namespace Markup

/-- The names of the open tags, innermost first, after one more tag. -/
def openAfter (names : List Text) (tag : Tag) : List Text :=
  match tag.kind with
  | .opening => tag.name :: names
  | .closing => names.erase tag.name
  | .selfClosing => names

/-- The names of the tags still open after a list of tags, outermost first. -/
def unclosed (tags : List Tag) : List Text :=
  (tags.foldl openAfter []).reverse

/-- The names of the tags still open at an offset of a text, outermost first.  Only the text before
the offset counts. -/
def openTags (text : Text) (offset : Int) : List Text :=
  unclosed (tags (text.take offset.toNat))

end Markup
end Reindent
