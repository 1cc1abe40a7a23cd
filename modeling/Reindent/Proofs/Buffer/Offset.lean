import Reindent.Buffer.Edit
import Reindent.Proofs.Text.Lines

/-!
# Offsets in a text and its lines

A text is cut in two at an offset; here the cut is read as a cut of its lines.  What stands before
the offset is a number of whole lines, each with its newline, and the start of one more line.  All
facts on positions follow from this form: how many newlines come before an offset, where a line
starts, and that an offset is found again through its position.
-/

namespace Reindent
namespace Text

/-- Lines with a newline behind each of them. -/
def ended (ls : List Text) : Text :=
  ls.flatMap fun l => l ++ ['\n']

theorem ended_cons (l : Text) (ls : List Text) :
    ended (l :: ls) = l ++ '\n' :: ended ls := by
  simp [ended]

theorem ended_append (ls more : List Text) :
    ended (ls ++ more) = ended ls ++ ended more :=
  List.flatMap_append

theorem ended_append_unlines
    (ls : List Text) {more : List Text} (hmore : more ≠ []) :
    ended ls ++ unlines more = unlines (ls ++ more) := by
  induction ls with
  | nil => rfl
  | cons l ls ih =>
      rw [ended_cons, List.append_assoc, List.cons_append, ih, List.cons_append,
        unlines_cons l (by simp [hmore])]

theorem append_unlines_cons (t l : Text) (ls : List Text) :
    t ++ unlines (l :: ls) = unlines ((t ++ l) :: ls) := by
  cases ls with
  | nil => rfl
  | cons m ms => simp [unlines]

/-- A last empty line ends the line before it. -/
theorem unlines_append_nil (ls : List Text) :
    unlines (ls ++ [[]]) = ended ls := by
  rw [← ended_append_unlines ls (by simp)]
  simp [unlines]

theorem lines_ended_append
    {ls : List Text} (hls : ∀ l ∈ ls, '\n' ∉ l) (t : Text) :
    lines (ended ls ++ t) = ls ++ lines t := by
  induction ls with
  | nil => rfl
  | cons l ls ih =>
      obtain ⟨hl, hrest⟩ := List.forall_mem_cons.mp hls
      rw [ended_cons, List.append_assoc, List.cons_append, lines_append_newline hl, ih hrest,
        List.cons_append]

theorem exists_lines_append
    {l : Text} (hl : '\n' ∉ l) (t : Text) :
    ∃ more rest, lines (l ++ t) = (l ++ more) :: rest := by
  induction l with
  | nil =>
      obtain ⟨more, rest, ht⟩ := List.exists_cons_of_ne_nil (lines_ne_nil t)
      exact ⟨more, rest, ht⟩
  | cons c cs ih =>
      rw [List.mem_cons, not_or] at hl
      obtain ⟨more, rest, ht⟩ := ih hl.2
      exact ⟨more, rest, lines_cons_of_ne (Ne.symm hl.1) ht⟩

theorem count_newline_ended
    {ls : List Text} (hls : ∀ l ∈ ls, '\n' ∉ l) :
    (ended ls).count '\n' = ls.length := by
  induction ls with
  | nil => rfl
  | cons l ls ih =>
      obtain ⟨hl, hrest⟩ := List.forall_mem_cons.mp hls
      rw [ended_cons, List.count_append, List.count_eq_zero_of_not_mem hl, List.count_cons_self,
        ih hrest, List.length_cons, Nat.zero_add]

/-- Every text is a number of ended lines and the start of one more. -/
theorem exists_eq_ended_append (t : Text) :
    ∃ init last, t = ended init ++ last ∧ (∀ l ∈ init, '\n' ∉ l) ∧ '\n' ∉ last := by
  have hsplit := List.dropLast_append_getLast (lines_ne_nil t)
  have hall : ∀ l ∈ lines t, '\n' ∉ l := fun l hl => newline_not_mem_of_mem_lines hl
  refine ⟨(lines t).dropLast, (lines t).getLast (lines_ne_nil t), ?_, ?_, ?_⟩
  · conv_lhs => rw [← unlines_lines t, ← hsplit]
    rw [← ended_append_unlines _ (by simp), unlines]
  · intro l hl
    exact hall l ((List.dropLast_sublist _).subset hl)
  · exact hall _ (List.getLast_mem _)

/-- What follows the last newline of a text, read from its end. -/
theorem takeWhile_reverse_ended_append
    (init : List Text) {last : Text} (hlast : '\n' ∉ last) :
    (ended init ++ last).reverse.takeWhile (· ≠ '\n') = last.reverse := by
  have hplain : ∀ c ∈ last.reverse, decide (c ≠ '\n') = true := by
    intro c hc
    rw [decide_eq_true_iff]
    rintro rfl
    exact hlast (List.mem_reverse.mp hc)
  rw [List.reverse_append, List.takeWhile_append_of_pos hplain]
  have hstop : (ended init).reverse.takeWhile (fun c => decide (c ≠ '\n')) = [] := by
    rcases List.eq_nil_or_concat init with rfl | ⟨more, l, rfl⟩
    · rfl
    · simp [ended]
  rw [hstop, List.append_nil]

end Text

namespace Buffer

theorem clamp_le (limit : ℕ) (n : Int) :
    clamp limit n ≤ limit :=
  Nat.min_le_right _ _

/-! ## Where lines start -/

theorem lineStart_eq (text : Text) (line : ℕ) :
    lineStart text line = (Text.ended (text.lines.take line)).length := rfl

/-- The lines before a line of the text and those from it on make up the text. -/
theorem ended_take_append_unlines_drop
    {text : Text} {line : ℕ} (hline : line < text.lines.length) :
    Text.ended (text.lines.take line) ++ Text.unlines (text.lines.drop line) = text := by
  have hdrop : text.lines.drop line ≠ [] := by
    rw [ne_eq, List.drop_eq_nil_iff]
    omega
  rw [Text.ended_append_unlines _ hdrop, List.take_append_drop, Text.unlines_lines]

theorem take_lineStart
    {text : Text} {line : ℕ} (hline : line < text.lines.length) :
    text.take (lineStart text line) = Text.ended (text.lines.take line) := by
  calc
    text.take (lineStart text line) =
        (Text.ended (text.lines.take line) ++ Text.unlines (text.lines.drop line)).take
          (Text.ended (text.lines.take line)).length := by
      rw [ended_take_append_unlines_drop hline, lineStart_eq]
    _ = Text.ended (text.lines.take line) := List.take_left

theorem drop_lineStart
    {text : Text} {line : ℕ} (hline : line < text.lines.length) :
    text.drop (lineStart text line) = Text.unlines (text.lines.drop line) := by
  calc
    text.drop (lineStart text line) =
        (Text.ended (text.lines.take line) ++ Text.unlines (text.lines.drop line)).drop
          (Text.ended (text.lines.take line)).length := by
      rw [ended_take_append_unlines_drop hline, lineStart_eq]
    _ = Text.unlines (text.lines.drop line) := List.drop_left

theorem take_append_drop_take
    (ls : List Text) {start stop : ℕ} (hle : start ≤ stop) :
    ls.take start ++ (ls.take stop).drop start = ls.take stop := by
  calc
    ls.take start ++ (ls.take stop).drop start =
        (ls.take stop).take start ++ (ls.take stop).drop start := by
      rw [List.take_take, Nat.min_eq_left hle]
    _ = ls.take stop := List.take_append_drop _ _

theorem lineStart_mono
    (text : Text) {start stop : ℕ} (hle : start ≤ stop) :
    lineStart text start ≤ lineStart text stop := by
  rw [lineStart_eq, lineStart_eq, ← take_append_drop_take text.lines hle, Text.ended_append,
    List.length_append]
  exact Nat.le_add_right _ _

theorem lineStart_le_length
    {text : Text} {line : ℕ} (hline : line < text.lines.length) :
    lineStart text line ≤ text.length := by
  have hlength := congrArg List.length (ended_take_append_unlines_drop hline)
  rw [List.length_append] at hlength
  rw [lineStart_eq]
  omega

theorem lineStart_succ
    {text : Text} {line : ℕ} (hline : line < text.lines.length) :
    lineStart text (line + 1) = lineStart text line + text.lines[line].length + 1 := by
  rw [lineStart_eq, lineStart_eq, List.take_add_one, List.getElem?_eq_getElem hline,
    Option.toList_some, Text.ended_append, Text.ended_cons]
  simp [Text.ended, Nat.add_assoc]

/-- A line of the text stands behind the lines before it, each ended. -/
theorem exists_eq_ended_append_line
    {text : Text} {line : ℕ} (hline : line < text.lines.length) :
    ∃ after, text = Text.ended (text.lines.take line) ++ (text.lines[line] ++ after) := by
  have hrest : ∃ after, Text.unlines (text.lines.drop line) = text.lines[line] ++ after := by
    rw [List.drop_eq_getElem_cons hline]
    cases text.lines.drop (line + 1) with
    | nil => exact ⟨[], by simp [Text.unlines]⟩
    | cons next more => exact ⟨_, rfl⟩
  obtain ⟨after, hafter⟩ := hrest
  exact ⟨after, by rw [← hafter, ended_take_append_unlines_drop hline]⟩

/-! ## Offsets of positions -/

theorem offsetAt_of_lt
    {text : Text} {line : ℕ} (hline : line < text.lines.length) (character : Int) :
    offsetAt text { line, character } =
      lineStart text line + clamp text.lines[line].length character := by
  have hneg : ¬ (line : Int) < 0 := by omega
  simp [offsetAt, hneg, List.getElem?_eq_getElem hline]

theorem offsetAt_of_le
    {text : Text} {line : ℕ} (hline : text.lines.length ≤ line) (character : Int) :
    offsetAt text { line, character } = text.length := by
  have hneg : ¬ (line : Int) < 0 := by omega
  simp [offsetAt, hneg, List.getElem?_eq_none hline]

theorem offsetAt_line_zero
    {text : Text} {line : ℕ} (hline : line < text.lines.length) :
    offsetAt text { line, character := 0 } = lineStart text line := by
  rw [offsetAt_of_lt hline]
  simp [clamp]

/-- A position in an ended line or in the line behind them is counted from the lines before it. -/
theorem offsetAt_ended_append
    {init : List Text} (hinit : ∀ l ∈ init, '\n' ∉ l) {last : Text} (hlast : '\n' ∉ last)
    (after : Text) :
    offsetAt (Text.ended init ++ (last ++ after))
        { line := init.length, character := last.length } =
      (Text.ended init ++ last).length := by
  obtain ⟨more, rest, hmore⟩ := Text.exists_lines_append hlast after
  have hlines : (Text.ended init ++ (last ++ after)).lines = init ++ (last ++ more) :: rest := by
    rw [Text.lines_ended_append hinit, hmore]
  have hline : init.length < (Text.ended init ++ (last ++ after)).lines.length := by
    simp [hlines]
  rw [offsetAt_of_lt hline, lineStart_eq]
  simp [hlines, clamp]

/-- The position of an offset counts the ended lines before it and the rest of its own line. -/
theorem positionAt_of_take
    {text : Text} {offset : Int} {init : List Text} (hinit : ∀ l ∈ init, '\n' ∉ l)
    {last : Text} (hlast : '\n' ∉ last)
    (hbefore : text.take (clamp text.length offset) = Text.ended init ++ last) :
    positionAt text offset = { line := init.length, character := last.length } := by
  rw [positionAt, hbefore, Text.takeWhile_reverse_ended_append init hlast, List.count_append,
    Text.count_newline_ended hinit, List.count_eq_zero_of_not_mem hlast, List.length_reverse,
    Nat.add_zero]

/-- An offset is found again through its position. -/
theorem offsetAt_positionAt (text : Text) (offset : Int) :
    offsetAt text (positionAt text offset) = clamp text.length offset := by
  have hlength : (text.take (clamp text.length offset)).length = clamp text.length offset :=
    List.length_take_of_le (clamp_le _ _)
  have hcut : text.take (clamp text.length offset) ++ text.drop (clamp text.length offset) = text :=
    List.take_append_drop _ _
  obtain ⟨init, last, hbefore, hinit, hlast⟩ :=
    Text.exists_eq_ended_append (text.take (clamp text.length offset))
  rw [positionAt_of_take hinit hlast hbefore]
  conv_lhs => rw [← hcut, hbefore, List.append_assoc]
  rw [offsetAt_ended_append hinit hlast, ← hbefore, hlength]

end Buffer
end Reindent
