import Reindent.Buffer.Line
import Reindent.Proofs.Buffer.Offset

/-!
# Lines of a buffer at a position

What stands before a position is the lines before its line and the front of the line itself, and
every offset belongs to such a position.  The line is shown without the carriage returns at its
end, which does not touch what stands before any other character.  Text without newlines that is
put in at the start of a line changes that line and no other.
-/

namespace Reindent

namespace Text

/-- A piece without a newline at the end of a text lies in its last line. -/
theorem suffix_of_suffix_ended_append
    {piece : Text} (hpiece : '\n' ∉ piece) {init : List Text} {last : Text}
    (hsuffix : piece <:+ ended init ++ last) :
    piece <:+ last := by
  rcases List.suffix_or_suffix_of_suffix hsuffix (List.suffix_append _ last) with h | ⟨more, rfl⟩
  · exact h
  · -- If the piece reached beyond the last line, the newline before that line would be in it.
    obtain ⟨front, hfront⟩ := hsuffix
    rw [← List.append_assoc, List.append_cancel_right_eq] at hfront
    rcases List.eq_nil_or_concat more with rfl | ⟨more, c, rfl⟩
    · exact List.suffix_rfl
    · rcases List.eq_nil_or_concat init with rfl | ⟨init, l, rfl⟩
      · simp [ended] at hfront
      · have hends : (front ++ more) ++ [c] = (ended init ++ l) ++ ['\n'] := by
          simpa [ended] using hfront
        obtain rfl : c = '\n' := List.singleton_inj.mp (List.append_inj_right' hends rfl)
        simp at hpiece

end Text

namespace Buffer

/-- Only what follows the last other character counts as carriage returns at the end. -/
theorem withoutReturns_append_cons
    {c : Char} (hc : c ≠ '\r') (front rest : Text) :
    withoutReturns (front ++ c :: rest) = front ++ c :: withoutReturns rest := by
  rw [withoutReturns, List.reverse_append, List.reverse_cons, List.append_assoc,
    List.dropWhile_append]
  split
  · next h => simp [withoutReturns, List.isEmpty_iff.mp h, hc]
  · simp [withoutReturns]

theorem lineAt_of_lt {text : Text} {line : ℕ} (hline : line < text.lines.length) :
    lineAt text line = .ok
      { number := line
        text := withoutReturns text.lines[line]
        firstNonBlank := (withoutReturns text.lines[line]).length -
          (Text.trimStart (withoutReturns text.lines[line])).length } := by
  have hneg : ¬ (line : Int) < 0 := by omega
  simp [lineAt, hneg, List.getElem?_eq_getElem hline]

theorem lineAt_of_not_lt
    {text : Text} {number : Int} (hnumber : number < 0 ∨ (lineCount text : Int) ≤ number) :
    lineAt text number = .error { line := number, count := lineCount text } := by
  rcases hnumber with hneg | hle
  · simp [lineAt, hneg]
  · have hneg : ¬ number < 0 := by omega
    have hnone : text.lines[number.toNat]? = none := by
      rw [List.getElem?_eq_none_iff]
      rw [lineCount] at hle
      omega
    simp [lineAt, hneg, hnone]

theorem trim_withoutReturns_eq_nil_iff (line : Text) :
    Text.trim (withoutReturns line) = [] ↔ Text.trim line = [] := by
  rw [Text.trim_eq_nil_iff, Text.trim_eq_nil_iff]
  constructor
  · intro hshown c hc
    have hsplit : line.reverse.takeWhile (· = '\r') ++ line.reverse.dropWhile (· = '\r') =
        line.reverse := List.takeWhile_append_dropWhile
    rw [← List.mem_reverse, ← hsplit, List.mem_append] at hc
    rcases hc with hreturn | hc
    · obtain rfl : c = '\r' := by simpa using List.mem_takeWhile_imp hreturn
      decide
    · exact hshown c (by rwa [withoutReturns, List.mem_reverse])
  · intro hall c hc
    rw [withoutReturns, List.mem_reverse] at hc
    exact hall c (List.mem_reverse.mp ((List.dropWhile_sublist _).subset hc))

/-- The text before a position: the lines before its line and the front of the line. -/
theorem take_offsetAt
    {text : Text} {line character : ℕ} (hline : line < text.lines.length)
    (hcharacter : character ≤ text.lines[line].length) :
    text.take (offsetAt text { line, character }) =
      Text.ended (text.lines.take line) ++ text.lines[line].take character := by
  have hclamp : clamp text.lines[line].length character = character := by
    simp [clamp, hcharacter]
  obtain ⟨after, hafter⟩ := exists_eq_ended_append_line hline
  calc
    text.take (offsetAt text { line, character }) =
        (Text.ended (text.lines.take line) ++ (text.lines[line] ++ after)).take
          ((Text.ended (text.lines.take line)).length + character) := by
      rw [← hafter, offsetAt_of_lt hline, hclamp, lineStart_eq]
    _ = Text.ended (text.lines.take line) ++ text.lines[line].take character := by
      rw [List.take_length_add_append, List.take_append_of_le_length hcharacter]

/-- Every offset has a position in a line of the text. -/
theorem exists_positionAt (text : Text) (offset : Int) :
    ∃ (line character : ℕ) (hline : line < text.lines.length),
      character ≤ text.lines[line].length ∧ positionAt text offset = { line, character } := by
  obtain ⟨init, last, hbefore, hinit, hlast⟩ :=
    Text.exists_eq_ended_append (text.take (clamp text.length offset))
  obtain ⟨more, rest, hmore⟩ :=
    Text.exists_lines_append hlast (text.drop (clamp text.length offset))
  have hlines : text.lines = init ++ (last ++ more) :: rest := by
    rw [← hmore, ← Text.lines_ended_append hinit, ← List.append_assoc, ← hbefore,
      List.take_append_drop]
  refine ⟨init.length, last.length, by simp [hlines], by simp [hlines], ?_⟩
  exact positionAt_of_take hinit hlast hbefore

theorem applyOne_insert (text : Text) (position : Position) (newText : Text) :
    applyOne text (.insert position newText) =
      text.take (offsetAt text position) ++ newText ++ text.drop (offsetAt text position) := rfl

/-- A text without newlines put at the start of a line is added to that line. -/
theorem lines_applyOne_insert
    {text : Text} {line : ℕ} (hline : line < text.lines.length) {newText : Text}
    (hnew : '\n' ∉ newText) :
    (applyOne text (.insert { line, character := 0 } newText)).lines =
      text.lines.set line (newText ++ text.lines[line]) := by
  have hfilled : ∀ l ∈ (newText ++ text.lines[line]) :: text.lines.drop (line + 1), '\n' ∉ l := by
    refine List.forall_mem_cons.mpr ⟨?_, Text.newline_not_mem_drop text _⟩
    rw [List.mem_append, not_or]
    exact ⟨hnew, Text.newline_not_mem_of_mem_lines (List.getElem_mem hline)⟩
  rw [applyOne_insert, offsetAt_line_zero hline, take_lineStart hline, drop_lineStart hline,
    List.drop_eq_getElem_cons hline, List.append_assoc, Text.append_unlines_cons,
    Text.lines_ended_append (Text.newline_not_mem_take text line),
    Text.lines_unlines (by simp) hfilled, List.set_eq_take_append_cons_drop, if_pos hline]

end Buffer
end Reindent
