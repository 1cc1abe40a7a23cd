import Reindent.Proofs.Buffer.Line

/-!
# Positions and offsets in order

The positions within a text and the offsets up to its length are two names for the same places, and
both are given in the order of the text.  Any other integers are moved to such a place.  An offset
is moved to the nearest end.  A position has three cases: its line is before the text, it is one of
the lines, or it is behind the text; in a line its character is moved to the nearest end of that
line.  None of this changes the order of two positions, since a character never leaves its line.
-/

namespace Reindent

namespace Position

theorem le_iff {p q : Position} :
    p ≤ q ↔ p.line < q.line ∨ (p.line = q.line ∧ p.character ≤ q.character) :=
  Iff.rfl

theorem line_le_of_le
    {p q : Position} (hle : p ≤ q) :
    p.line ≤ q.line := by
  rw [le_iff] at hle
  omega

theorem le_refl (p : Position) :
    p ≤ p :=
  le_iff.mpr (Or.inr ⟨rfl, Int.le_refl _⟩)

theorem le_total (p q : Position) :
    p ≤ q ∨ q ≤ p := by
  rw [le_iff, le_iff]
  omega

end Position

namespace Buffer

theorem clamp_eq (limit : ℕ) (n : Int) :
    (clamp limit n : Int) = min (max 0 n) limit := by
  rw [clamp]
  omega

theorem clamp_mono
    (limit : ℕ) {n m : Int} (hle : n ≤ m) :
    clamp limit n ≤ clamp limit m := by
  rw [clamp, clamp]
  omega

/-! ## Positions within a text -/

/-- The position is in a line of the text or at its end, carriage returns included. -/
def IsWithin (text : Text) (p : Position) : Prop :=
  0 ≤ p.line ∧ p.line < lineCount text ∧
    0 ≤ p.character ∧ p.character ≤ (text.lines.getD p.line.toNat []).length

instance decidableIsWithin (text : Text) : DecidablePred (IsWithin text) := fun p =>
  inferInstanceAs (Decidable (0 ≤ p.line ∧ p.line < lineCount text ∧
    0 ≤ p.character ∧ p.character ≤ (text.lines.getD p.line.toNat []).length))

theorem isWithin_iff {text : Text} {p : Position} :
    IsWithin text p ↔
      ∃ (line character : ℕ) (hline : line < text.lines.length),
        character ≤ text.lines[line].length ∧ p = { line, character } := by
  constructor
  · rintro ⟨hline, hcount, hcharacter, hlength⟩
    have hlt : p.line.toNat < text.lines.length := by
      rw [lineCount] at hcount
      omega
    rw [← List.getElem_eq_getD (h := hlt)] at hlength
    refine ⟨p.line.toNat, p.character.toNat, hlt, by omega, ?_⟩
    rw [Int.toNat_of_nonneg hline, Int.toNat_of_nonneg hcharacter]
  · rintro ⟨line, character, hline, hcharacter, rfl⟩
    simp [IsWithin, lineCount, hline, hcharacter]

theorem isWithin_positionAt (text : Text) (offset : Int) :
    IsWithin text (positionAt text offset) :=
  isWithin_iff.mpr (exists_positionAt text offset)

/-! ## Offsets follow positions -/

/-- Where a position stands: before the text, in one of its lines, or behind the text. -/
inductive Place (text : Text) : Position → Prop
  | before {p : Position} (hline : p.line < 0) : Place text p
  | inside (line : ℕ) (character : Int) (hline : line < text.lines.length) :
      Place text { line, character }
  | behind (line : ℕ) (character : Int) (hline : text.lines.length ≤ line) :
      Place text { line, character }

theorem place (text : Text) (p : Position) :
    Place text p := by
  obtain ⟨number, character⟩ := p
  by_cases hneg : number < 0
  · exact .before hneg
  · obtain ⟨line, rfl⟩ := Int.eq_ofNat_of_zero_le (Int.not_lt.mp hneg)
    rcases Nat.lt_or_ge line text.lines.length with hline | hline
    · exact .inside line character hline
    · exact .behind line character hline

theorem offsetAt_of_neg
    {p : Position} (hline : p.line < 0) (text : Text) :
    offsetAt text p = 0 :=
  if_pos hline

section

variable {text : Text} {line : ℕ} (hline : line < text.lines.length) (character : Int)
include hline

theorem lineStart_le_offsetAt :
    lineStart text line ≤ offsetAt text { line, character } := by
  rw [offsetAt_of_lt hline]
  exact Nat.le_add_right _ _

theorem offsetAt_le_lineEnd :
    offsetAt text { line, character } ≤ lineStart text line + text.lines[line].length := by
  rw [offsetAt_of_lt hline]
  exact Nat.add_le_add_left (clamp_le _ _) _

omit character in
theorem lineEnd_le_length :
    lineStart text line + text.lines[line].length ≤ text.length := by
  obtain ⟨after, hafter⟩ := exists_eq_ended_append_line hline
  have hlength := congrArg List.length hafter
  rw [List.length_append, List.length_append, ← lineStart_eq] at hlength
  omega

end

theorem offsetAt_le_length (text : Text) (p : Position) :
    offsetAt text p ≤ text.length := by
  cases place text p with
  | before hline =>
      rw [offsetAt_of_neg hline]
      exact Nat.zero_le _
  | inside line character hline =>
      exact (offsetAt_le_lineEnd hline character).trans (lineEnd_le_length hline)
  | behind line character hline =>
      rw [offsetAt_of_le hline]

/-- A position in an earlier line has a smaller offset, whatever its character is. -/
theorem offsetAt_lt_of_line_lt
    {text : Text} {line line' : ℕ} (hlt : line < line') (hline' : line' < text.lines.length)
    (character character' : Int) :
    offsetAt text { line, character } <
      offsetAt text { line := line', character := character' } := by
  have hline : line < text.lines.length := hlt.trans hline'
  calc
    offsetAt text { line, character } ≤ lineStart text line + text.lines[line].length :=
      offsetAt_le_lineEnd hline character
    _ < lineStart text (line + 1) := by
      rw [lineStart_succ hline]
      exact Nat.lt_succ_self _
    _ ≤ lineStart text line' := lineStart_mono text hlt
    _ ≤ offsetAt text { line := line', character := character' } :=
      lineStart_le_offsetAt hline' character'

theorem offsetAt_le_of_character_le
    (text : Text) (line : ℕ) {character character' : Int} (hle : character ≤ character') :
    offsetAt text { line, character } ≤ offsetAt text { line, character := character' } := by
  rcases Nat.lt_or_ge line text.lines.length with hline | hline
  · rw [offsetAt_of_lt hline, offsetAt_of_lt hline]
    exact Nat.add_le_add_left (clamp_mono _ hle) _
  · rw [offsetAt_of_le hline, offsetAt_of_le hline]

/-- Offsets follow the order of positions, inside the text and outside. -/
theorem offsetAt_mono
    (text : Text) {p q : Position} (hle : p ≤ q) :
    offsetAt text p ≤ offsetAt text q := by
  have hlines := Position.line_le_of_le hle
  cases place text q with
  | before hline' =>
      rw [offsetAt_of_neg (Int.lt_of_le_of_lt hlines hline')]
      exact Nat.zero_le _
  | inside line' character' hline' =>
      cases place text p with
      | before hline =>
          rw [offsetAt_of_neg hline]
          exact Nat.zero_le _
      | inside line character hline =>
          rcases hle with hlt | ⟨heq, hcharacter⟩
          · exact (offsetAt_lt_of_line_lt (Int.ofNat_lt.mp hlt) hline' _ _).le
          · obtain rfl : line = line' := Int.ofNat_inj.mp heq
            exact offsetAt_le_of_character_le text line hcharacter
      | behind line character hline =>
          have hback : line ≤ line' := Int.ofNat_le.mp hlines
          omega
  | behind line' character' hline' =>
      rw [offsetAt_of_le hline']
      exact offsetAt_le_length text p

/-! ## Positions follow offsets -/

/-- A position within the text is found again through its offset. -/
theorem positionAt_offsetAt
    {text : Text} {p : Position} (hp : IsWithin text p) :
    positionAt text (offsetAt text p) = p := by
  obtain ⟨line, character, hline, hcharacter, rfl⟩ := isWithin_iff.mp hp
  have hfront : '\n' ∉ text.lines[line].take character := by
    intro hmem
    exact Text.newline_not_mem_of_mem_lines (List.getElem_mem hline) (List.mem_of_mem_take hmem)
  have hclamp : clamp text.length (offsetAt text { line, character }) =
      offsetAt text { line, character } := by
    simp [clamp, offsetAt_le_length]
  have hcut := take_offsetAt hline hcharacter
  rw [← hclamp] at hcut
  rw [positionAt_of_take (Text.newline_not_mem_take text line) hfront hcut,
    List.length_take_of_le hline.le, List.length_take_of_le hcharacter]

/-- Only the place in the text counts for the position of an offset. -/
theorem positionAt_congr
    {text : Text} {offset offset' : Int}
    (heq : clamp text.length offset = clamp text.length offset') :
    positionAt text offset = positionAt text offset' := by
  rw [positionAt, positionAt, heq]

/-- Positions follow the order of offsets. -/
theorem positionAt_mono
    (text : Text) {offset offset' : Int} (hle : offset ≤ offset') :
    positionAt text offset ≤ positionAt text offset' := by
  -- In the other order of the positions, the two offsets would be at the same place.
  rcases Position.le_total (positionAt text offset) (positionAt text offset') with h | h
  · exact h
  · have hback := offsetAt_mono text h
    rw [offsetAt_positionAt, offsetAt_positionAt] at hback
    rw [positionAt_congr (Nat.le_antisymm (clamp_mono _ hle) hback)]
    exact Position.le_refl _

/-- The positions within a text and the offsets up to its length correspond to each other.  An
offset is found again through its position, moved to the nearest end if it is outside, and a
position within the text is found again through its offset.  No integers lead out of the text, and
both ways follow the order, for all positions and all offsets. -/
theorem positions_correspond_to_offsets (text : Text) :
    (∀ offset : Int,
      IsWithin text (positionAt text offset) ∧
        (offsetAt text (positionAt text offset) : Int) = min (max 0 offset) text.length) ∧
      (∀ p, IsWithin text p → positionAt text (offsetAt text p) = p) ∧
      (∀ p, offsetAt text p ≤ text.length) ∧
      (∀ p q, p ≤ q → offsetAt text p ≤ offsetAt text q) ∧
      (∀ offset offset' : Int, offset ≤ offset' →
        positionAt text offset ≤ positionAt text offset') := by
  refine ⟨?_, ?_, offsetAt_le_length text, ?_, ?_⟩
  · intro offset
    refine ⟨isWithin_positionAt text offset, ?_⟩
    rw [offsetAt_positionAt, clamp_eq]
  · intro p hp
    exact positionAt_offsetAt hp
  · intro p q hle
    exact offsetAt_mono text hle
  · intro offset offset' hle
    exact positionAt_mono text hle

/-- A line that ends in a carriage return, an empty line and a line at the end of the text. -/
def unevenLines : Text :=
  "ab\r\n\ncd".toList

theorem positions_correspond_to_offsets_unevenLines :
    (IsWithin unevenLines { line := 0, character := 3 } ∧
      positionAt unevenLines (offsetAt unevenLines { line := 0, character := 3 }) =
        { line := 0, character := 3 }) ∧
    (({ line := 0, character := 99 } : Position) ≤ { line := 1, character := -5 } ∧
      offsetAt unevenLines { line := 0, character := 99 } ≤
        offsetAt unevenLines { line := 1, character := -5 }) ∧
    ((-7 : Int) ≤ 5 ∧ positionAt unevenLines (-7) ≤ positionAt unevenLines 5) := by
  obtain ⟨-, hback, -, hoffsets, hpositions⟩ := positions_correspond_to_offsets unevenLines
  have hwithin : IsWithin unevenLines { line := 0, character := 3 } := by decide
  have hlines : ({ line := 0, character := 99 } : Position) ≤ { line := 1, character := -5 } := by
    decide
  exact ⟨⟨hwithin, hback _ hwithin⟩, ⟨hlines, hoffsets _ _ hlines⟩,
    ⟨by decide, hpositions _ _ (by decide)⟩⟩

end Buffer
end Reindent
