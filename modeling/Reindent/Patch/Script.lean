import Reindent.Text.Basic
import Std.Data.HashMap

/-!
# Comparing two lists of lines

Two lists of lines are compared by their longest common stretch, and then by what lies before and
after it.  In a long new text the lines that occur very often do not start a stretch, but a stretch
may go on over them.  A stretch is only used if its lines agree, so the pieces give back both texts
(`flatMap_old_pieces`, `flatMap_new_pieces`) however the stretch was found.
-/

namespace Reindent
namespace Patch

/-- A stretch of lines that stays, or lines that are taken out and lines put in their place. -/
inductive Piece where
  | same (lines : List Text)
  | change (removed added : List Text)
  deriving DecidableEq, Repr

def Piece.old : Piece → List Text
  | .same lines => lines
  | .change removed _ => removed

def Piece.new : Piece → List Text
  | .same lines => lines
  | .change _ added => added

/-- From how many new lines on frequent lines start no stretch. -/
def longText : Nat := 200

/-- The hash of a line mixes the codes of its characters. -/
instance : Hashable Text where
  hash line := line.foldl (fun code c => mixHash code c.val.toUInt64) 7

def counts (lines : List Text) : Std.HashMap Text Nat :=
  lines.foldl (fun counted line => counted.insert line (counted.getD line 0 + 1)) ∅

/-- A line may start a stretch, unless it occurs very often in a long text.  `counted` says how
often the lines of a text with so many lines occur. -/
def mayStart (total : Nat) (counted : Std.HashMap Text Nat) (line : Text) : Bool :=
  decide (total < longText) || decide (counted.getD line 0 ≤ total / 100 + 1)

/-- Where the lines that may start a stretch stand, in ascending order, counted from an index. -/
def placesFrom (seeds : Text → Bool) : Nat → List Text → Std.HashMap Text (List Nat)
  | _, [] => ∅
  | index, line :: rest =>
    let later := placesFrom seeds (index + 1) rest
    if seeds line then later.insert line (index :: later.getD line []) else later

/-- A common stretch: where it starts in the old and in the new lines, and how long it is. -/
structure Stretch where
  oldStart : Nat
  newStart : Nat
  size : Nat
  deriving DecidableEq, Repr

/-- A common stretch that ends at a new line: the index of the line and the length. -/
abbrev Ending := Nat × Nat

/-- The common stretches that end at one old line, in ascending order of the new lines that are
equal to it, from the stretches that end at the old line before it. -/
def endingHere : List Nat → List Ending → List Ending
  | [], _ => []
  | place :: places, [] => (place, 1) :: endingHere places []
  | place :: places, (index, size) :: above =>
    if index + 1 < place then endingHere (place :: places) above
    else if index + 1 = place then (place, size + 1) :: endingHere places above
    else (place, 1) :: endingHere places ((index, size) :: above)
termination_by places above => places.length + above.length

/-- The longer of the best stretch so far and those that end at an old line; the first one wins a
tie. -/
def better (oldIndex : Nat) (best : Stretch) (endings : List Ending) : Stretch :=
  endings.foldl (fun best (newIndex, size) =>
    if best.size < size then
      { oldStart := oldIndex + 1 - size, newStart := newIndex + 1 - size, size }
    else best) best

/-- The longest stretch of lines that may start one. -/
def longestSeed (places : Std.HashMap Text (List Nat)) :
    Nat → List Ending → List Text → Stretch → Stretch
  | _, _, [], best => best
  | index, above, line :: rest, best =>
    let endings := endingHere (places.getD line []) above
    longestSeed places (index + 1) endings rest (better index best endings)

/-- How many lines two lists have in common at their front. -/
def commonFront : List Text → List Text → Nat
  | a :: as, b :: bs => if a == b then commonFront as bs + 1 else 0
  | _, _ => 0

/-- The longest common stretch, grown at both ends as far as the lines agree. -/
def longest (seeds : Text → Bool) (old new : List Text) : Stretch :=
  let seed := longestSeed (placesFrom seeds 0 new) 0 [] old
    { oldStart := 0, newStart := 0, size := 0 }
  let back := commonFront (old.take seed.oldStart).reverse (new.take seed.newStart).reverse
  let forth := commonFront (old.drop (seed.oldStart + seed.size))
    (new.drop (seed.newStart + seed.size))
  { oldStart := seed.oldStart - back
    newStart := seed.newStart - back
    size := back + seed.size + forth }

/-- The lines of a stretch agree. -/
def Stretch.agrees (stretch : Stretch) (old new : List Text) : Prop :=
  (old.drop stretch.oldStart).take stretch.size = (new.drop stretch.newStart).take stretch.size

instance (stretch : Stretch) (old new : List Text) : Decidable (stretch.agrees old new) :=
  inferInstanceAs (Decidable (_ = _))

/-- The pieces that lead from the old to the new lines. -/
def pieces (seeds : Text → Bool) (old new : List Text) : List Piece :=
  let stretch := longest seeds old new
  if _h : 0 < stretch.size ∧ stretch.oldStart < old.length ∧ stretch.agrees old new then
    pieces seeds (old.take stretch.oldStart) (new.take stretch.newStart)
      ++ .same ((old.drop stretch.oldStart).take stretch.size)
      :: pieces seeds (old.drop (stretch.oldStart + stretch.size))
          (new.drop (stretch.newStart + stretch.size))
  else if old = [] && new = [] then []
  else [.change old new]
termination_by old.length
decreasing_by
  · have shorter : (longest seeds old new).oldStart < old.length := _h.2.1
    simp only [List.length_take]
    omega
  · have positive : 0 < (longest seeds old new).size := _h.1
    have shorter : (longest seeds old new).oldStart < old.length := _h.2.1
    simp only [List.length_drop]
    omega

/-- A list is what stands before a stretch, the stretch, and what stands after it. -/
theorem take_append_stretch (lines : List Text) (start size : Nat) :
    lines.take start ++ ((lines.drop start).take size ++ lines.drop (start + size)) = lines := by
  rw [← List.drop_drop, List.take_append_drop, List.take_append_drop]

/-- The old lines of the pieces are the old lines. -/
theorem flatMap_old_pieces (seeds : Text → Bool) (old new : List Text) :
    (pieces seeds old new).flatMap Piece.old = old := by
  fun_induction pieces seeds old new with
  | case1 old new stretch _ before after =>
    rw [List.flatMap_append, List.flatMap_cons, before, after]
    exact take_append_stretch old stretch.oldStart stretch.size
  | case2 old new _ _ empty =>
    simp only [Bool.and_eq_true, decide_eq_true_eq] at empty
    simp [empty.1]
  | case3 => simp [Piece.old]

/-- The new lines of the pieces are the new lines. -/
theorem flatMap_new_pieces (seeds : Text → Bool) (old new : List Text) :
    (pieces seeds old new).flatMap Piece.new = new := by
  fun_induction pieces seeds old new with
  | case1 old new stretch used before after =>
    rw [List.flatMap_append, List.flatMap_cons, before, after]
    have agrees : stretch.agrees old new := used.2.2
    simp only [Piece.new]
    rw [agrees]
    exact take_append_stretch new stretch.newStart stretch.size
  | case2 old new _ _ empty =>
    simp only [Bool.and_eq_true, decide_eq_true_eq] at empty
    simp [empty.2]
  | case3 => simp [Piece.new]

/-- Pieces with neighbouring stretches that stay made into one. -/
def joined : List Piece → List Piece
  | [] => []
  | piece :: rest =>
    match piece, joined rest with
    | .same a, .same b :: others => .same (a ++ b) :: others
    | first, others => first :: others

/-- The pieces that lead from the old to the new lines, stretches that stay as long as they can
be. -/
def script (old new : List Text) : List Piece :=
  let counted := counts new
  joined (pieces (mayStart new.length counted) old new)

end Patch
end Reindent
