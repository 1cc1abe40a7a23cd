import Reindent.Buffer.Position

/-!
# Edits

An edit replaces what a span covers by a new text.  Edits of one list all refer to the text before
any of them is made.  They are made in the order of their offsets, and an edit that starts before
the end of the one before it is refused.
-/

namespace Reindent

/-- Replace what a span covers by a new text. -/
structure Edit where
  span : Span
  newText : Text
  deriving DecidableEq, Repr

/-- Put a new text at a position. -/
def Edit.insert (position : Position) (newText : Text) : Edit :=
  { span := { start := position, stop := position }, newText }

namespace Buffer

/-- An edit whose span is given by offsets. -/
structure Replacement where
  start : Nat
  stop : Nat
  newText : Text
  deriving DecidableEq, Repr

/-- The offsets of an edit in a text. -/
def locate (text : Text) (edit : Edit) : Replacement :=
  { start := offsetAt text edit.span.start
    stop := offsetAt text edit.span.stop
    newText := edit.newText }

/-- Replacements are ordered by where they start and then by where they stop. -/
def Replacement.le (a b : Replacement) : Bool :=
  decide (a.start < b.start) || (a.start == b.start && decide (a.stop ≤ b.stop))

/-- Two edits of a list cover a common stretch. -/
inductive EditError where
  | overlap
  deriving DecidableEq, Repr

def EditError.message : EditError → String
  | .overlap => "Overlapping text edits."

/-- The text from a cursor on, with ordered replacements made. -/
def splice (text : Text) : Nat → List Replacement → Except EditError Text
  | cursor, [] => .ok (text.drop cursor)
  | cursor, r :: rest =>
    if r.start < cursor then .error .overlap
    else
      match splice text r.stop rest with
      | .error e => .error e
      | .ok after => .ok (slice text cursor r.start ++ r.newText ++ after)

/-- The text with all edits made. -/
def applyAll (text : Text) (edits : List Edit) : Except EditError Text :=
  splice text 0 ((edits.map (locate text)).mergeSort Replacement.le)

def applyOne (text : Text) (edit : Edit) : Text :=
  let r := locate text edit
  text.take r.start ++ r.newText ++ text.drop r.stop

/-- One edit alone is never refused. -/
theorem applyAll_singleton (text : Text) (edit : Edit) :
    applyAll text [edit] = .ok (applyOne text edit) := by
  simp [applyAll, applyOne, splice, slice]

/-- Without edits the text stays as it is. -/
theorem applyAll_nil (text : Text) : applyAll text [] = .ok text := by
  simp [applyAll, splice]

end Buffer
end Reindent
