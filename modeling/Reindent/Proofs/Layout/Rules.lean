import Reindent.Proofs.Layout.Body
import Reindent.Proofs.Layout.Code

/-!
# Rules of a style sheet

In a style sheet a closing line takes the level back once and moves it no further, so the counter
never falls behind the depth: code of a style sheet is steady, whatever its nesting.  The level
cannot fall below zero either.  A closing line without an opening one therefore stands at the top,
and the lines behind it are laid out as if it were not there.
-/

namespace Reindent
namespace Layout

namespace Code

theorem steady_of_style (code : Code .style) (depth : ℕ) :
    code.Steady depth := by
  induction code generalizing depth with
  | nil => trivial
  | blank rest ih => exact ih depth
  | leaf line rest isLeaf ih => exact ih depth
  | enclosed opener inside closer rest opens closes ihinside ihrest =>
      exact ⟨ihinside (depth + 1), ihrest depth, Or.inl rfl⟩

/-- The counter of a style sheet gives every line the level of its depth. -/
theorem writtenFrom_style_lines (unit : Text) (base : ℕ) (code : Code .style) :
    Block.style.writtenFrom unit base 0 code.lines = code.written unit base := by
  have hcounted : code.counted base 0 = code.placed base 0 :=
    ((counted_eq_placed_iff base code 0).mpr (code.steady_of_style 0)).1
  calc
    Block.style.writtenFrom unit base 0 code.lines =
        (code.counted base 0).map (Placed.indented unit) := by
      rw [Block.writtenFrom, ← Block.placed, placed_lines]
    _ = code.written unit base := by
      rw [hcounted, map_indented_placed, Nat.add_zero]

end Code

namespace Block

variable {block : Block}

/-- At level zero a closing line stays there, and so does the level behind it. -/
theorem writtenFrom_closes
    {line : Text} (hline : block.Closes line) (unit : Text) (base : ℕ) (rest : List Text) :
    block.writtenFrom unit base 0 (line :: rest) =
      indented unit base line :: block.writtenFrom unit base 0 rest := by
  have hlevel : shift (dedent 0) (block.change line) = 0 := by
    have hle := Code.shift_le hline.change_le (dedent 0)
    exact Nat.le_zero.mp hle
  rw [writtenFrom, placedFrom_of_closes hline, hlevel, List.map_cons, ← writtenFrom]
  simp [Placed.indented, dedent]

theorem writtenFrom_strays
    {strays : List Text} (hstrays : ∀ line ∈ strays, block.Closes line) (unit : Text) (base : ℕ)
    (rest : List Text) :
    block.writtenFrom unit base 0 (strays ++ rest) =
      strays.map (indented unit base) ++ block.writtenFrom unit base 0 rest := by
  induction strays with
  | nil => rfl
  | cons line strays ih =>
      obtain ⟨hline, hstrays⟩ := List.forall_mem_cons.mp hstrays
      rw [List.cons_append, writtenFrom_closes hline, ih hstrays, List.map_cons, List.cons_append]

end Block

/-- A style sheet is written by the depth of its rules, with any unit and from any base: blank lines
come out empty, and every other line stands behind as many units as it has rules around it, both
ends of a rule at one level.  Closing lines before all rules only put themselves in front, at the
base.  The lines need not be trimmed. -/
theorem body_style_eq_written
    (unit : Text) (base : ℕ) {strays : List Text}
    (hstrays : ∀ line ∈ strays, Block.style.Closes line) (code : Code .style) {lines : List Text}
    (hlines : lines.map Text.trim = strays ++ code.lines) :
    Block.style.writtenFrom unit base 0 lines =
        strays.map (indented unit base) ++ code.written unit base ∧
      Block.style.body unit base lines =
        Text.unlines (strays.map (indented unit base) ++ code.written unit base) := by
  have hwritten : Block.style.writtenFrom unit base 0 lines =
      strays.map (indented unit base) ++ code.written unit base := by
    rw [Block.writtenFrom, ← Block.placedFrom_map_trim, hlines, ← Block.writtenFrom,
      Block.writtenFrom_strays hstrays, code.writtenFrom_style_lines]
  refine ⟨hwritten, ?_⟩
  rw [Block.body_eq_unlines, hwritten]

/-- A rule with a rule inside it, a rule on one line and a blank line. -/
def nestedRules : Code .style :=
  .enclosed "@media print \x7b".toList
    (.leaf "a \x7b color: red; \x7d".toList
      (.blank
        (.enclosed "p \x7b".toList (.leaf "margin: 0;".toList .nil (by decide)) "\x7d".toList .nil
          (by decide) (by decide)))
      (by decide))
    "\x7d".toList (.leaf "b \x7b\x7d".toList .nil (by decide)) (by decide) (by decide)

/-- The same lines with blanks around some of them, behind a stray closing line. -/
def strayedRules : List Text :=
  ["\t\x7d\x7d", "@media print \x7b", "a \x7b color: red; \x7d", " ", "p \x7b", "    margin: 0;",
    "\x7d", " \x7d ", "b \x7b\x7d"].map String.toList

theorem body_style_strayedRules :
    (∀ line ∈ ["\x7d\x7d".toList], Block.style.Closes line) ∧
      strayedRules.map Text.trim = ["\x7d\x7d".toList] ++ nestedRules.lines ∧
      Block.style.body [' '] 1 strayedRules =
        Text.unlines ([" \x7d\x7d", " @media print \x7b", "  a \x7b color: red; \x7d", "",
          "  p \x7b", "   margin: 0;", "  \x7d", " \x7d", " b \x7b\x7d"].map String.toList) := by
  have hstrays : ∀ line ∈ ["\x7d\x7d".toList], Block.style.Closes line := by decide
  have hlines : strayedRules.map Text.trim = ["\x7d\x7d".toList] ++ nestedRules.lines := by
    decide +kernel
  have hbody := (body_style_eq_written [' '] 1 hstrays nestedRules hlines).2
  exact ⟨hstrays, hlines, hbody.trans (by decide +kernel)⟩

end Layout
end Reindent
