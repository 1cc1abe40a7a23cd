import Reindent.Patch.Hunk
import Mathlib.Data.List.Infix

/-!
# Applying hunks

A hunk shows lines with a sign each: lines that stay, lines that go and lines that come.  Hunks are
applied from the first to the last: the lines between two hunks are copied, and the old lines of a
hunk, which have to be there, are exchanged for its new ones.  Both starts of a hunk have to agree
with the lines passed over so far.

Applied to the old lines, the hunks of two lists of lines give the new ones.  The pieces of the
script stand one behind the other; only lines that stay are left out, at the front, at the back and
in the middle of long stretches.
-/

namespace Reindent
namespace Patch

/-! ## Lines with signs -/

/-- The text that a patch starts from, or the one that it leads to. -/
inductive Side where
  | old
  | new
  deriving DecidableEq, Repr

/-- What becomes of a line. -/
inductive Sign where
  | kept
  | removed
  | added
  deriving DecidableEq, Repr

/-- The line is one of the text on a side. -/
def Sign.isOn : Side → Sign → Bool
  | .old, .added => false
  | .new, .removed => false
  | _, _ => true

/-- A line and what becomes of it. -/
abbrev Shown := Sign × Text

/-- The lines of the text on a side. -/
def linesOn (side : Side) (lines : List Shown) : List Text :=
  (lines.filter fun line => line.1.isOn side).map Prod.snd

theorem linesOn_append (side : Side) (front back : List Shown) :
    linesOn side (front ++ back) = linesOn side front ++ linesOn side back := by
  rw [linesOn, List.filter_append, List.map_append, linesOn, linesOn]

/-- The lines of a piece in the text on a side. -/
def Piece.on : Side → Piece → List Text
  | .old => Piece.old
  | .new => Piece.new

/-- The lines of pieces in the text on a side. -/
def piecesOn (side : Side) (pieces : List Piece) : List Text :=
  pieces.flatMap (Piece.on side)

theorem piecesOn_append (side : Side) (front back : List Piece) :
    piecesOn side (front ++ back) = piecesOn side front ++ piecesOn side back :=
  List.flatMap_append

theorem piecesOn_cons (side : Side) (piece : Piece) (rest : List Piece) :
    piecesOn side (piece :: rest) = piece.on side ++ piecesOn side rest := rfl

/-- The lines of a piece with their signs. -/
def Piece.shown : Piece → List Shown
  | .same lines => lines.map fun line => (.kept, line)
  | .change removed added =>
    (removed.map fun line => (.removed, line)) ++ added.map fun line => (.added, line)

theorem linesOn_shown (side : Side) (piece : Piece) :
    linesOn side piece.shown = piece.on side := by
  cases side <;> cases piece <;>
    simp [Piece.shown, Piece.on, Piece.old, Piece.new, linesOn, Sign.isOn, List.filter_map,
      Function.comp_def]

theorem linesOn_flatMap_shown (side : Side) (pieces : List Piece) :
    linesOn side (pieces.flatMap Piece.shown) = piecesOn side pieces := by
  induction pieces with
  | nil => rfl
  | cons piece rest ih =>
      rw [List.flatMap_cons, linesOn_append, linesOn_shown, ih, piecesOn_cons]

/-- A hunk as a patch shows it. -/
structure ShownHunk where
  oldStart : ℕ
  newStart : ℕ
  lines : List Shown
  deriving DecidableEq, Repr

/-- The hunk with its lines and their signs. -/
def Hunk.shown (hunk : Hunk) : ShownHunk :=
  { oldStart := hunk.oldStart
    newStart := hunk.newStart
    lines := hunk.pieces.flatMap Piece.shown }

/-! ## Application -/

/-- The lines that hunks make of the lines from some old line on, the first of which is to become
some new line. -/
def applied : ℕ → ℕ → List ShownHunk → List Text → Option (List Text)
  | _, _, [], rest => some rest
  | oldAt, newAt, hunk :: later, rest =>
    let gap := hunk.oldStart - oldAt
    let old := linesOn .old hunk.lines
    let new := linesOn .new hunk.lines
    if oldAt ≤ hunk.oldStart && hunk.newStart = newAt + gap && gap ≤ rest.length
        && old.isPrefixOf (rest.drop gap) then
      (applied (hunk.oldStart + old.length) (hunk.newStart + new.length) later
        (rest.drop (gap + old.length))).map fun done => rest.take gap ++ (new ++ done)
    else none

/-- A hunk that stands behind some lines keeps them and exchanges its own. -/
theorem applied_cons
    {oldAt newAt : ℕ} {hunk : ShownHunk} {between : List Text}
    (hold : hunk.oldStart = oldAt + between.length) (hnew : hunk.newStart = newAt + between.length)
    (later : List ShownHunk) (rest : List Text) :
    applied oldAt newAt (hunk :: later) (between ++ (linesOn .old hunk.lines ++ rest)) =
      (applied (hunk.oldStart + (linesOn .old hunk.lines).length)
        (hunk.newStart + (linesOn .new hunk.lines).length) later rest).map
          fun done => between ++ (linesOn .new hunk.lines ++ done) := by
  have hgap : hunk.oldStart - oldAt = between.length := by omega
  have hdrop : (between ++ (linesOn .old hunk.lines ++ rest)).drop
      (between.length + (linesOn .old hunk.lines).length) = rest := by
    rw [← List.drop_drop, List.drop_left, List.drop_left]
  simp only [applied, hgap, hdrop, List.drop_left, List.take_left]
  rw [if_pos]
  simp [hold, hnew]

/-! ## Pieces one behind the other -/

/-- The lines of placed pieces in the text on a side. -/
def placedOn (side : Side) (placed : List Placed) : List Text :=
  piecesOn side (placed.map Placed.piece)

theorem placedOn_append (side : Side) (front back : List Placed) :
    placedOn side (front ++ back) = placedOn side front ++ placedOn side back := by
  rw [placedOn, List.map_append, piecesOn_append, placedOn, placedOn]

theorem placedOn_cons (side : Side) (p : Placed) (rest : List Placed) :
    placedOn side (p :: rest) = p.piece.on side ++ placedOn side rest := rfl

/-- The places of pieces add up, from two indices on. -/
def Contiguous : ℕ → ℕ → List Placed → Prop
  | _, _, [] => True
  | oldAt, newAt, p :: rest =>
    p.oldStart = oldAt ∧ p.newStart = newAt ∧
      Contiguous (oldAt + (p.piece.on .old).length) (newAt + (p.piece.on .new).length) rest

theorem contiguous_append_iff
    {oldAt newAt : ℕ} {front back : List Placed} :
    Contiguous oldAt newAt (front ++ back) ↔
      Contiguous oldAt newAt front ∧
        Contiguous (oldAt + (placedOn .old front).length) (newAt + (placedOn .new front).length)
          back := by
  induction front generalizing oldAt newAt with
  | nil => exact ⟨fun h => ⟨trivial, h⟩, And.right⟩
  | cons p rest ih =>
      simp only [List.cons_append, Contiguous, placedOn_cons, List.length_append, ih, and_assoc,
        Nat.add_assoc]

theorem contiguous_place (oldAt newAt : ℕ) (pieces : List Piece) :
    Contiguous oldAt newAt (place oldAt newAt pieces) := by
  induction pieces generalizing oldAt newAt with
  | nil => trivial
  | cons piece rest ih => exact ⟨rfl, rfl, ih _ _⟩

theorem placedOn_place (side : Side) (oldAt newAt : ℕ) (pieces : List Piece) :
    placedOn side (place oldAt newAt pieces) = piecesOn side pieces := by
  induction pieces generalizing oldAt newAt with
  | nil => rfl
  | cons piece rest ih => exact congrArg (piece.on side ++ ·) (ih _ _)

/-! ## Lines left out -/

theorem Placed.on_eq_of_not_isChange
    {p : Placed} (h : p.isChange = false) (side : Side) :
    p.piece.on side = p.piece.old := by
  obtain ⟨oldStart, newStart, lines | ⟨removed, added⟩⟩ := p
  · cases side <;> rfl
  · cases h

/-- Taking the front off a piece that stays moves it on; a change keeps its lines. -/
theorem Placed.exists_dropLines
    (p : Placed) {count : ℕ} (hcount : count ≤ p.piece.old.length) :
    ∃ lines, (∀ side, p.piece.on side = lines ++ (p.dropLines count).piece.on side) ∧
      (p.dropLines count).oldStart = p.oldStart + lines.length ∧
      (p.dropLines count).newStart = p.newStart + lines.length := by
  obtain ⟨oldStart, newStart, lines | ⟨removed, added⟩⟩ := p
  · refine ⟨lines.take count, fun side => ?_, ?_⟩
    · cases side <;> exact (List.take_append_drop count lines).symm
    · have hlength : (lines.take count).length = count := List.length_take_of_le hcount
      rw [hlength]
      exact ⟨rfl, rfl⟩
  · exact ⟨[], fun _ => rfl, rfl, rfl⟩

theorem Placed.exists_takeLines
    (p : Placed) (count : ℕ) :
    ∃ lines, (∀ side, p.piece.on side = (p.takeLines count).piece.on side ++ lines) ∧
      (p.takeLines count).oldStart = p.oldStart ∧ (p.takeLines count).newStart = p.newStart := by
  obtain ⟨oldStart, newStart, lines | ⟨removed, added⟩⟩ := p
  · refine ⟨lines.drop count, fun side => ?_, rfl, rfl⟩
    cases side <;> exact (List.take_append_drop count lines).symm
  · exact ⟨[], fun _ => (List.append_nil _).symm, rfl, rfl⟩

/-- The front of a list of pieces without its first lines, which stay. -/
theorem exists_trimFront
    {placed : List Placed} (h : Contiguous 0 0 placed) :
    ∃ lines, (∀ side, placedOn side placed = lines ++ placedOn side (trimFront placed)) ∧
      Contiguous lines.length lines.length (trimFront placed) := by
  cases placed with
  | nil => exact ⟨[], fun _ => rfl, trivial⟩
  | cons p rest =>
      obtain ⟨lines, hlines, hold, hnew⟩ :=
        p.exists_dropLines (Nat.sub_le p.piece.old.length context)
      obtain ⟨hp, hp', hrest⟩ := h
      refine ⟨lines, fun side => ?_, ?_, ?_, ?_⟩
      · rw [trimFront, placedOn_cons, placedOn_cons, hlines side, List.append_assoc]
      · rw [hold, hp, Nat.zero_add]
      · rw [hnew, hp', Nat.zero_add]
      · rw [hlines .old, hlines .new, List.length_append, List.length_append, Nat.zero_add,
          Nat.zero_add] at hrest
        exact hrest

/-- The back of a list of pieces without its last lines, which stay. -/
theorem exists_trimBack
    {oldAt newAt : ℕ} {placed : List Placed} (h : Contiguous oldAt newAt placed) :
    ∃ lines, (∀ side, placedOn side placed = placedOn side (trimBack placed) ++ lines) ∧
      Contiguous oldAt newAt (trimBack placed) := by
  fun_induction trimBack placed generalizing oldAt newAt with
  | case1 => exact ⟨[], fun _ => rfl, trivial⟩
  | case2 p =>
      obtain ⟨lines, hlines, hold, hnew⟩ := p.exists_takeLines context
      refine ⟨lines, fun side => ?_, hold.trans h.1, hnew.trans h.2.1, trivial⟩
      rw [placedOn_cons, placedOn_cons, hlines side]
      simp [placedOn, piecesOn]
  | case3 p rest _ ih =>
      obtain ⟨lines, hlines, hrest⟩ := ih h.2.2
      refine ⟨lines, fun side => ?_, h.1, h.2.1, hrest⟩
      rw [placedOn_cons, placedOn_cons, hlines side, List.append_assoc]

/-- A long stretch that stays is its first lines, some lines that are not shown, and its last
lines. -/
theorem Placed.exists_middle
    {p : Placed} (hsame : p.isChange = false) (hlong : 2 * context < p.piece.old.length) :
    ∃ middle, (∀ side, p.piece.on side = (p.takeLines context).piece.on side ++
        (middle ++ (p.dropLines (p.piece.old.length - context)).piece.on side)) ∧
      (p.dropLines (p.piece.old.length - context)).oldStart =
        p.oldStart + ((p.takeLines context).piece.on .old).length + middle.length ∧
      (p.dropLines (p.piece.old.length - context)).newStart =
        p.newStart + ((p.takeLines context).piece.on .new).length + middle.length := by
  obtain ⟨oldStart, newStart, lines | ⟨removed, added⟩⟩ := p
  · have hlong : 2 * context < lines.length := hlong
    let middle := (lines.take (lines.length - context)).drop context
    have hfront : (lines.take context).length = context := List.length_take_of_le (by omega)
    have hmiddle : middle.length = lines.length - context - context := by
      rw [List.length_drop, List.length_take_of_le (Nat.sub_le _ _)]
    have hlines :
        lines = lines.take context ++ (middle ++ lines.drop (lines.length - context)) := by
      have hshort : (lines.take (lines.length - context)).take context = lines.take context := by
        rw [List.take_take, Nat.min_eq_left (by omega)]
      rw [← List.append_assoc, ← hshort, List.take_append_drop, List.take_append_drop]
    refine ⟨middle, fun side => ?_, ?_, ?_⟩
    · cases side <;> exact hlines
    · change oldStart + (lines.length - context) =
        oldStart + (lines.take context).length + middle.length
      omega
    · change newStart + (lines.length - context) =
        newStart + (lines.take context).length + middle.length
      omega
  · cases hsame

/-! ## Groups -/

theorem placedOn_eq_of_not_any_isChange
    {placed : List Placed} (h : ¬ placed.any Placed.isChange = true) (side : Side) :
    placedOn side placed = placedOn .old placed := by
  induction placed with
  | nil => cases side <;> rfl
  | cons p rest ih =>
      simp only [List.any_cons, Bool.or_eq_true, not_or, Bool.not_eq_true] at h
      rw [placedOn_cons, placedOn_cons, p.on_eq_of_not_isChange h.1, p.on_eq_of_not_isChange h.1,
        ih (by simpa using h.2)]

/-- The hunk of a group starts where the group does and has its lines. -/
theorem shown_ofGroup
    {oldAt newAt : ℕ} {group : List Placed} (h : Contiguous oldAt newAt group) (hne : group ≠ []) :
    (Hunk.ofGroup group).shown.oldStart = oldAt ∧ (Hunk.ofGroup group).shown.newStart = newAt ∧
      ∀ side, linesOn side (Hunk.ofGroup group).shown.lines = placedOn side group := by
  refine ⟨?_, ?_, fun side => linesOn_flatMap_shown side _⟩
  · cases group with
    | nil => exact absurd rfl hne
    | cons p rest => exact h.1
  · cases group with
    | nil => exact absurd rfl hne
    | cons p rest => exact h.2.1

/-- Behind some lines that stay and before others, the hunks of the groups exchange the old lines of
the pieces for the new ones. -/
theorem applied_groups
    {group rest : List Placed} {oldAt newAt : ℕ} {between : List Text}
    (h : Contiguous (oldAt + between.length) (newAt + between.length) (group ++ rest))
    (after : List Text) :
    applied oldAt newAt ((groups group rest).map fun g => (Hunk.ofGroup g).shown)
        (between ++ (placedOn .old (group ++ rest) ++ after)) =
      some (between ++ (placedOn .new (group ++ rest) ++ after)) := by
  induction rest generalizing group oldAt newAt between with
  | nil =>
      rw [List.append_nil] at h ⊢
      rw [groups]
      split
      · next hchange =>
        have hne : group ≠ [] := by
          rintro rfl
          cases hchange
        obtain ⟨hold, hnew, hlines⟩ := shown_ofGroup h hne
        rw [List.map_cons, List.map_nil, ← hlines, ← hlines, applied_cons hold hnew]
        rfl
      · next hchange =>
        rw [List.map_nil, applied, placedOn_eq_of_not_any_isChange hchange .new]
  | cons p rest ih =>
      rw [groups]
      split
      · next hlong =>
        obtain ⟨hsame, hlong⟩ : p.isChange = false ∧ 2 * context < p.piece.old.length := by
          simpa using hlong
        obtain ⟨middle, hpiece, hold, hnew⟩ := Placed.exists_middle hsame hlong
        obtain ⟨-, -, htakeOld, htakeNew⟩ := p.exists_takeLines context
        obtain ⟨hgroup, hp, hp', hrest⟩ := contiguous_append_iff.mp h
        have hfront : Contiguous (oldAt + between.length) (newAt + between.length)
            (group ++ [p.takeLines context]) :=
          contiguous_append_iff.mpr ⟨hgroup, htakeOld.trans hp, htakeNew.trans hp', trivial⟩
        have hlines : ∀ side, placedOn side (group ++ p :: rest) =
            placedOn side (group ++ [p.takeLines context]) ++
              (middle ++ placedOn side
                ([p.dropLines (p.piece.old.length - context)] ++ rest)) := by
          intro side
          rw [placedOn_append, placedOn_cons, hpiece side, placedOn_append, placedOn_append]
          simp [placedOn, piecesOn]
        obtain ⟨hstart, hstart', hshown⟩ := shown_ofGroup hfront (by simp)
        rw [List.map_cons, hlines, hlines, ← hshown, ← hshown, List.append_assoc, List.append_assoc,
          applied_cons hstart hstart', hstart, hstart', hshown, hshown, List.append_assoc, ih]
        · simp
        · have hlength : ∀ side, (placedOn side (group ++ [p.takeLines context])).length =
              (placedOn side group).length + ((p.takeLines context).piece.on side).length := by
            intro side
            rw [placedOn_append, List.length_append]
            simp [placedOn, piecesOn]
          rw [hpiece .old, hpiece .new] at hrest
          simp only [List.length_append] at hrest
          refine ⟨?_, ?_, ?_⟩
          · rw [hold, hp, hlength]
            omega
          · rw [hnew, hp', hlength]
            omega
          · rw [hlength, hlength]
            simpa only [Nat.add_assoc, List.append_eq, List.nil_append] using hrest
      · have hcons : group ++ p :: rest = group ++ [p] ++ rest := by simp
        rw [hcons] at h ⊢
        exact ih h

/-- The hunks of a script exchange its old lines for the new ones. -/
theorem applied_hunksOf (pieces : List Piece) :
    applied 0 0 ((hunksOf pieces).map Hunk.shown) (piecesOn .old pieces) =
      some (piecesOn .new pieces) := by
  obtain ⟨front, hfront, hcontiguous⟩ := exists_trimFront (contiguous_place 0 0 pieces)
  obtain ⟨back, hback, hcontiguous⟩ := exists_trimBack hcontiguous
  have hlines : ∀ side, piecesOn side pieces =
      front ++ (placedOn side (trimBack (trimFront (place 0 0 pieces))) ++ back) := by
    intro side
    rw [← hback, ← hfront, placedOn_place]
  rw [hunksOf, List.map_map, hlines .old, hlines .new]
  rw [← Nat.zero_add front.length] at hcontiguous
  exact applied_groups hcontiguous back

/-! ## The script -/

/-- Joining neighbours that stay changes neither text. -/
theorem piecesOn_joined (side : Side) (pieces : List Piece) :
    piecesOn side (joined pieces) = piecesOn side pieces := by
  induction pieces with
  | nil => rfl
  | cons piece rest ih =>
      rw [piecesOn_cons, ← ih]
      rcases piece with a | ⟨removed, added⟩
      · rcases hrest : joined rest with _ | ⟨b | ⟨removed, added⟩, others⟩
        · simp [joined, hrest, piecesOn_cons]
        · simp only [joined, hrest, piecesOn_cons]
          cases side <;> simp [Piece.on, Piece.old, Piece.new]
        · simp only [joined, hrest, piecesOn_cons]
      · simp only [joined, piecesOn_cons]

/-- Applied to the old lines, the hunks between two lists of lines give the new ones. -/
theorem applied_hunks (old new : List Text) :
    applied 0 0 ((hunks old new).map Hunk.shown) old = some new := by
  have happlied := applied_hunksOf (script old new)
  have hold : piecesOn .old (script old new) = old := by
    rw [script, piecesOn_joined]
    exact flatMap_old_pieces _ old new
  have hnew : piecesOn .new (script old new) = new := by
    rw [script, piecesOn_joined]
    exact flatMap_new_pieces _ old new
  rwa [hold, hnew] at happlied

end Patch
end Reindent
