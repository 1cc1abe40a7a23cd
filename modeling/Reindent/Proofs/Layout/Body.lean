import Mathlib.Data.List.Forall2
import Reindent.Layout.Block
import Reindent.Proofs.Text.Lines

/-!
# The lines of a block's body

A body is joined to one text, searched for two newlines in a row and cut again.  Here this round
trip is replaced by what it does to the list of lines: `kept` drops the empty lines of a body
unless one of them stands between its first and its last line.

Levels and units are kept apart from this.  `Writes` relates a trimmed line to any of its written
forms, and all that later modules use about a body is that its written lines are related to its
kept lines one by one, and that laying out the kept lines once more writes the same.
-/

namespace Reindent
namespace Layout

/-- The lines of a body that are written.  Empty lines stay only when a line other than the first
and the last is empty. -/
def kept (body : List Text) : List Text :=
  if [] ∈ body.tail.dropLast then body else body.filter fun line => !line.isEmpty

theorem kept_nil : kept [] = [] := rfl

theorem kept_sublist (body : List Text) :
    (kept body).Sublist body := by
  unfold kept
  split
  · exact List.Sublist.refl body
  · exact List.filter_sublist

theorem filter_kept (body : List Text) :
    (kept body).filter (fun line => !line.isEmpty) =
      body.filter fun line => !line.isEmpty := by
  unfold kept
  split
  · rfl
  · simp

/-- Without empty lines everything is written. -/
theorem kept_filter (body : List Text) :
    kept (body.filter fun line => !line.isEmpty) =
      body.filter fun line => !line.isEmpty := by
  unfold kept
  split
  · rfl
  · simp

/-- Joining lines and taking the body lines of the text keeps what `kept` says. -/
theorem bodyLines_unlines
    {ls : List Text} (hls : ∀ l ∈ ls, '\n' ∉ l) :
    bodyLines (Text.unlines ls) = kept ls := by
  by_cases hnil : ls = []
  · subst hnil
    rfl
  · have hgap := Text.includes_newlines_unlines hls
    rw [bodyLines, Text.lines_unlines hnil hls, kept]
    split
    · next h => simp [hgap.mpr h]
    · next h =>
      have hfalse : Text.includes ['\n', '\n'] (Text.unlines ls) = false := by
        rw [← Bool.not_eq_true, hgap]
        exact h
      simp [hfalse]

/-! ## Written forms of lines -/

/-- A written form of a line: blanks may stand before it, but an empty line stays empty. -/
structure Writes (line written : Text) : Prop where
  trim_eq : Text.trim written = line
  newline_not_mem : '\n' ∉ written
  eq_nil : line = [] → written = []

theorem Writes.eq_nil_iff
    {line written : Text} (h : Writes line written) :
    line = [] ↔ written = [] := by
  refine ⟨h.eq_nil, ?_⟩
  rintro rfl
  exact h.trim_eq.symm

theorem writes_nil : Writes [] [] where
  trim_eq := rfl
  newline_not_mem := by simp
  eq_nil _ := rfl

theorem writes_indented
    {unit line : Text} (hunit : Text.IsIndent unit) (hline : line.IsTrimmed)
    (hne : line ≠ []) (level : ℕ) :
    Writes line (indented unit level line) where
  trim_eq := by
    rw [indented, Text.trim_repeated_append hunit]
    exact hline.trim_eq
  newline_not_mem := Text.newline_not_mem_repeated_append hunit hline.newline_not_mem level
  eq_nil h := absurd h hne

theorem map_trim_eq_of_forall₂_writes
    {ls ws : List Text} (h : List.Forall₂ Writes ls ws) :
    ws.map Text.trim = ls := by
  induction h with
  | nil => rfl
  | cons hw _ ih => rw [List.map_cons, hw.trim_eq, ih]

theorem newline_not_mem_of_forall₂_writes
    {ls ws : List Text} (h : List.Forall₂ Writes ls ws) :
    ∀ w ∈ ws, '\n' ∉ w := by
  induction h with
  | nil => simp
  | cons hw _ ih =>
      intro w hmem
      rcases List.mem_cons.mp hmem with rfl | hmem
      · exact hw.newline_not_mem
      · exact ih w hmem

theorem nil_mem_iff_of_forall₂_writes
    {ls ws : List Text} (h : List.Forall₂ Writes ls ws) :
    [] ∈ ls ↔ [] ∈ ws := by
  induction h with
  | nil => simp
  | cons hw _ ih =>
      rw [List.mem_cons, List.mem_cons, eq_comm, hw.eq_nil_iff, ih, eq_comm]

theorem gap_iff_of_forall₂_writes
    {ls ws : List Text} (h : List.Forall₂ Writes ls ws) :
    [] ∈ ls.tail.dropLast ↔ [] ∈ ws.tail.dropLast := by
  have htail : List.Forall₂ Writes (ls.drop 1) (ws.drop 1) := List.forall₂_drop 1 h
  rw [← List.drop_one, ← List.drop_one, List.dropLast_eq_take, List.dropLast_eq_take,
    htail.length_eq]
  exact nil_mem_iff_of_forall₂_writes (List.forall₂_take _ htail)

/-- Written forms can be kept or dropped in place of their lines. -/
theorem forall₂_writes_kept
    {ls ws : List Text} (h : List.Forall₂ Writes ls ws) :
    List.Forall₂ Writes (kept ls) (kept ws) := by
  unfold kept
  by_cases hgap : [] ∈ ls.tail.dropLast
  · rw [if_pos hgap, if_pos ((gap_iff_of_forall₂_writes h).mp hgap)]
    exact h
  · rw [if_neg hgap, if_neg fun hmem => hgap ((gap_iff_of_forall₂_writes h).mpr hmem)]
    refine List.rel_filter ?_ h
    intro line written hw
    simp only [Bool.not_eq_true', List.isEmpty_eq_false_iff, ne_eq, hw.eq_nil_iff]

/-! ## Laying a body out -/

namespace Block

/-- A body may as well be trimmed before it is laid out. -/
theorem placedFrom_map_trim
    (block : Block) (base : Int) (level : ℕ) (lines : List Text) :
    block.placedFrom base level (lines.map Text.trim) = block.placedFrom base level lines := by
  induction lines generalizing level with
  | nil => rfl
  | cons line rest ih => simp only [List.map_cons, placedFrom, Text.trim_trim, ih]

/-- The written lines of a body from a level on. -/
def writtenFrom
    (block : Block) (unit : Text) (base : Int) (level : ℕ) (lines : List Text) : List Text :=
  (block.placedFrom base level lines).map (Placed.indented unit)

theorem body_eq_unlines
    (block : Block) (unit : Text) (base : Int) (lines : List Text) :
    block.body unit base lines = Text.unlines (block.writtenFrom unit base 0 lines) := rfl

theorem writtenFrom_nil_cons
    (block : Block) (unit : Text) (base : Int) (level : ℕ) (rest : List Text) :
    block.writtenFrom unit base level ([] :: rest) =
      [] :: block.writtenFrom unit base level rest := rfl

theorem writtenFrom_cons
    (block : Block) (unit : Text) (base : Int) (level : ℕ) {line : Text}
    (hline : line.IsTrimmed) (hne : line ≠ []) (rest : List Text) :
    block.writtenFrom unit base level (line :: rest) =
      indented unit (base + block.placement level line).toNat line ::
        block.writtenFrom unit base (block.levelAfter level line) rest := by
  simp [writtenFrom, placedFrom, hline.trim_eq, hne, Placed.indented]

theorem forall₂_writes_writtenFrom
    {unit : Text} (hunit : Text.IsIndent unit)
    (block : Block) (base : Int) (level : ℕ) {lines : List Text}
    (hlines : ∀ line ∈ lines, line.IsTrimmed) :
    List.Forall₂ Writes lines (block.writtenFrom unit base level lines) := by
  induction lines generalizing level with
  | nil => exact List.Forall₂.nil
  | cons line rest ih =>
      obtain ⟨hline, hrest⟩ := List.forall_mem_cons.mp hlines
      by_cases hne : line = []
      · subst hne
        rw [writtenFrom_nil_cons]
        exact List.Forall₂.cons writes_nil (ih level hrest)
      · rw [writtenFrom_cons block unit base level hline hne]
        exact List.Forall₂.cons (writes_indented hunit hline hne _) (ih _ hrest)

/-- Empty lines have no influence on the levels of the other lines. -/
theorem writtenFrom_filter
    (block : Block) (unit : Text) (base : Int) (level : ℕ) {lines : List Text}
    (hlines : ∀ line ∈ lines, line.IsTrimmed) :
    block.writtenFrom unit base level (lines.filter fun line => !line.isEmpty) =
      (block.writtenFrom unit base level lines).filter fun line => !line.isEmpty := by
  induction lines generalizing level with
  | nil => rfl
  | cons line rest ih =>
      obtain ⟨hline, hrest⟩ := List.forall_mem_cons.mp hlines
      by_cases hne : line = []
      · subst hne
        rw [writtenFrom_nil_cons]
        simpa using ih level hrest
      · have hkept : (line :: rest).filter (fun line => !line.isEmpty) =
            line :: rest.filter fun line => !line.isEmpty := by
          simp [hne]
        rw [hkept, writtenFrom_cons block unit base level hline hne,
          writtenFrom_cons block unit base level hline hne, ih _ hrest]
        simp [indented, hne]

/-- The written lines of a body are its kept lines, each behind its indentation. -/
theorem forall₂_writes_bodyLines
    {unit : Text} (hunit : Text.IsIndent unit)
    (block : Block) (base : Int) {lines : List Text}
    (hlines : ∀ line ∈ lines, line.IsTrimmed) :
    List.Forall₂ Writes (kept lines) (bodyLines (block.body unit base lines)) := by
  have hwrites := forall₂_writes_writtenFrom hunit block base 0 hlines
  rw [body_eq_unlines, bodyLines_unlines (newline_not_mem_of_forall₂_writes hwrites)]
  exact forall₂_writes_kept hwrites

/-- Laying out the kept lines writes the same as laying out all lines. -/
theorem bodyLines_body_kept
    {unit : Text} (hunit : Text.IsIndent unit)
    (block : Block) (base : Int) {lines : List Text}
    (hlines : ∀ line ∈ lines, line.IsTrimmed) :
    bodyLines (block.body unit base (kept lines)) =
      bodyLines (block.body unit base lines) := by
  have hkept : ∀ line ∈ kept lines, line.IsTrimmed := by
    intro line hmem
    exact hlines line ((kept_sublist lines).subset hmem)
  have hwrites := forall₂_writes_writtenFrom hunit block base 0 hlines
  have hwritesKept := forall₂_writes_writtenFrom hunit block base 0 hkept
  rw [body_eq_unlines, body_eq_unlines,
    bodyLines_unlines (newline_not_mem_of_forall₂_writes hwrites),
    bodyLines_unlines (newline_not_mem_of_forall₂_writes hwritesKept)]
  by_cases hgap : [] ∈ lines.tail.dropLast
  · rw [show kept lines = lines from if_pos hgap]
  · have hfiltered : kept lines = lines.filter fun line => !line.isEmpty := if_neg hgap
    rw [hfiltered, writtenFrom_filter block unit base 0 hlines, kept_filter]
    exact (if_neg fun hmem => hgap ((gap_iff_of_forall₂_writes hwrites).mpr hmem)).symm

end Block

end Layout
end Reindent
