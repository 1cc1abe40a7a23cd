import Reindent.Text.Blank

/-!
# Texts and their lines

A text is a list of characters.  Its lines are the pieces between newlines, so a text always has at
least one line, and joining the lines gives the text back.
-/

namespace Reindent

/-- A text is a list of Unicode scalar values; offsets and lengths count them. -/
abbrev Text := List Char

namespace Text

/-- The lines of a text: the pieces between its newline characters. -/
def lines : Text → List Text
  | [] => [[]]
  | c :: cs =>
    if c = '\n' then [] :: lines cs
    else
      match lines cs with
      | [] => [[c]]
      | l :: ls => (c :: l) :: ls

/-- Lines joined by newline characters, with none after the last. -/
def unlines : List Text → Text
  | [] => []
  | [l] => l
  | l :: ls => l ++ '\n' :: unlines ls

def trimStart (t : Text) : Text :=
  t.dropWhile isBlank

def trimEnd (t : Text) : Text :=
  (t.reverse.dropWhile isBlank).reverse

def trim (t : Text) : Text :=
  (t.trimStart).trimEnd

/-- `part` stands somewhere in the text. -/
def includes (part : Text) : Text → Bool
  | [] => part.isEmpty
  | c :: cs => part.isPrefixOf (c :: cs) || includes part cs

def byteOrderMark : Char := '\uFEFF'

/-- A text without the byte-order mark it may start with; a second one stays. -/
def dropMark : Text → Text
  | [] => []
  | c :: cs => if c = byteOrderMark then cs else c :: cs

theorem lines_ne_nil (t : Text) : lines t ≠ [] := by
  cases t with
  | nil => simp [lines]
  | cons c cs =>
    simp only [lines]
    split
    · simp
    · split <;> simp

theorem unlines_cons {ls : List Text} (l : Text) (h : ls ≠ []) :
    unlines (l :: ls) = l ++ '\n' :: unlines ls := by
  cases ls with
  | nil => exact absurd rfl h
  | cons => rfl

/-- Joining the lines of a text gives the text back. -/
theorem unlines_lines (t : Text) : unlines (lines t) = t := by
  induction t with
  | nil => rfl
  | cons c cs ih =>
    simp only [lines]
    split
    · next hc => rw [unlines_cons _ (lines_ne_nil cs), ih, hc, List.nil_append]
    · split
      · next h => exact absurd h (lines_ne_nil cs)
      · next l ls h =>
        rw [h] at ih
        cases ls with
        | nil => simpa [unlines] using ih
        | cons m ms => simpa [unlines] using ih

end Text

end Reindent
