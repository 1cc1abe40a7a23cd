import Mathlib.Data.List.DropRight
import Reindent.Text.Repeat

/-!
# Lines, trimming and blank units

Joining lines and cutting the text at its newlines are inverse to each other as long as no line
holds a newline, and trimming does not see the blanks put before a line.  The layout theory rests
on these two facts.  It also needs to know when two newlines follow each other in a joined text:
exactly when a line other than the first and the last is empty.
-/

namespace Reindent
namespace Text

/-- Trimming leaves the line alone, and it holds no newline. -/
structure IsTrimmed (l : Text) : Prop where
  trim_eq : trim l = l
  newline_not_mem : '\n' ∉ l

/-- A unit of indentation: blanks other than the newline, or nothing at all. -/
def IsIndent (unit : Text) : Prop :=
  ∀ c ∈ unit, isBlank c = true ∧ c ≠ '\n'

instance decidableIsIndent : DecidablePred IsIndent := fun unit =>
  List.decidableBAll (fun c => isBlank c = true ∧ c ≠ '\n') unit

/-! ## Cutting at newlines -/

theorem lines_cons_of_ne
    {c : Char} {cs l : Text} {ls : List Text}
    (hc : c ≠ '\n') (hcs : lines cs = l :: ls) :
    lines (c :: cs) = (c :: l) :: ls := by
  simp [lines, hc, hcs]

theorem lines_of_newline_not_mem
    {l : Text} (hl : '\n' ∉ l) :
    lines l = [l] := by
  induction l with
  | nil => rfl
  | cons c cs ih =>
      rw [List.mem_cons, not_or] at hl
      exact lines_cons_of_ne (Ne.symm hl.1) (ih hl.2)

theorem lines_append_newline
    {l : Text} (hl : '\n' ∉ l) (t : Text) :
    lines (l ++ '\n' :: t) = l :: lines t := by
  induction l with
  | nil => simp [lines]
  | cons c cs ih =>
      rw [List.mem_cons, not_or] at hl
      exact lines_cons_of_ne (Ne.symm hl.1) (ih hl.2)

/-- Cutting joined lines gives the lines back. -/
theorem lines_unlines
    {ls : List Text} (hne : ls ≠ []) (hls : ∀ l ∈ ls, '\n' ∉ l) :
    lines (unlines ls) = ls := by
  induction ls with
  | nil => exact absurd rfl hne
  | cons l ls ih =>
      obtain ⟨hl, hrest⟩ := List.forall_mem_cons.mp hls
      by_cases hnil : ls = []
      · subst hnil
        exact lines_of_newline_not_mem hl
      · rw [unlines_cons l hnil, lines_append_newline hl, ih hnil hrest]

theorem newline_not_mem_of_mem_lines
    {l t : Text} (hl : l ∈ lines t) :
    '\n' ∉ l := by
  induction t generalizing l with
  | nil =>
      rw [lines, List.mem_singleton] at hl
      simp [hl]
  | cons c cs ih =>
      obtain ⟨m, ms, hms⟩ := List.exists_cons_of_ne_nil (lines_ne_nil cs)
      by_cases hc : c = '\n'
      · rw [lines, if_pos hc, List.mem_cons] at hl
        rcases hl with rfl | hl
        · simp
        · exact ih hl
      · rw [lines_cons_of_ne hc hms, List.mem_cons] at hl
        rcases hl with rfl | hl
        · have hm : '\n' ∉ m := ih (by rw [hms]; exact List.mem_cons_self)
          simp [Ne.symm hc, hm]
        · exact ih (by rw [hms]; exact List.mem_cons_of_mem _ hl)

theorem newline_not_mem_take (t : Text) (count : ℕ) :
    ∀ l ∈ (lines t).take count, '\n' ∉ l :=
  fun _ hl => newline_not_mem_of_mem_lines (List.mem_of_mem_take hl)

theorem newline_not_mem_drop (t : Text) (count : ℕ) :
    ∀ l ∈ (lines t).drop count, '\n' ∉ l :=
  fun _ hl => newline_not_mem_of_mem_lines (List.mem_of_mem_drop hl)

/-! ## Trimming -/

theorem trimEnd_eq_rdropWhile (t : Text) :
    trimEnd t = t.rdropWhile isBlank := rfl

theorem trimEnd_cons_of_not_blank
    {c : Char} (hc : isBlank c = false) (t : Text) :
    trimEnd (c :: t) = c :: trimEnd t := by
  simp only [trimEnd, List.reverse_cons, List.dropWhile_append]
  split
  · next h =>
    rw [List.isEmpty_iff] at h
    simp [hc, h]
  · simp

theorem trim_cons_of_blank
    {c : Char} (hc : isBlank c = true) (t : Text) :
    trim (c :: t) = trim t := by
  simp [trim, trimStart, hc]

theorem trim_cons_of_not_blank
    {c : Char} (hc : isBlank c = false) (t : Text) :
    trim (c :: t) = c :: trimEnd t := by
  have hstart : trimStart (c :: t) = c :: t := by
    simp [trimStart, hc]
  rw [trim, hstart, trimEnd_cons_of_not_blank hc]

theorem trim_trim (t : Text) :
    trim (trim t) = trim t := by
  induction t with
  | nil => rfl
  | cons c t ih =>
      cases hc : isBlank c with
      | true => rw [trim_cons_of_blank hc, ih]
      | false =>
          rw [trim_cons_of_not_blank hc, trim_cons_of_not_blank hc]
          simp only [trimEnd_eq_rdropWhile, List.rdropWhile_idempotent _ _]

theorem trim_sublist (t : Text) :
    (trim t).Sublist t := by
  have hstart : (trimStart t).Sublist t := List.dropWhile_sublist _
  have hend : (trim t).Sublist (trimStart t) :=
    (List.rdropWhile_prefix isBlank (trimStart t)).sublist
  exact hend.trans hstart

/-- Every line of a text is trimmed once trimming has been applied to it. -/
theorem isTrimmed_trim_of_mem_lines
    {l t : Text} (hl : l ∈ lines t) :
    IsTrimmed (trim l) where
  trim_eq := trim_trim l
  newline_not_mem := by
    intro hmem
    exact newline_not_mem_of_mem_lines hl ((trim_sublist l).subset hmem)

theorem trim_append_of_blank
    {pad : Text} (hpad : ∀ c ∈ pad, isBlank c = true) (l : Text) :
    trim (pad ++ l) = trim l := by
  induction pad with
  | nil => rfl
  | cons c cs ih =>
      obtain ⟨hc, hcs⟩ := List.forall_mem_cons.mp hpad
      rw [List.cons_append, trim_cons_of_blank hc]
      exact ih hcs

theorem trim_eq_nil_iff (t : Text) :
    trim t = [] ↔ ∀ c ∈ t, isBlank c = true := by
  rw [trim, trimEnd_eq_rdropWhile, List.rdropWhile_eq_nil_iff]
  constructor
  · intro hdropped c hc
    have hsplit : t.takeWhile isBlank ++ trimStart t = t := List.takeWhile_append_dropWhile
    rw [← hsplit, List.mem_append] at hc
    rcases hc with hc | hc
    · exact List.mem_takeWhile_imp hc
    · exact hdropped c hc
  · intro hall c hc
    exact hall c ((List.dropWhile_sublist _).subset hc)

/-- Trimming keeps a last character that is not blank. -/
theorem exists_trim_concat
    {c : Char} (hc : isBlank c = false) (front : Text) :
    ∃ kept, trim (front ++ [c]) = kept ++ [c] := by
  refine ⟨front.dropWhile isBlank, ?_⟩
  have hstart : trimStart (front ++ [c]) = front.dropWhile isBlank ++ [c] := by
    rw [trimStart, List.dropWhile_append]
    split
    · next h => simp [List.isEmpty_iff.mp h, hc]
    · rfl
  rw [trim, hstart, trimEnd_eq_rdropWhile, List.rdropWhile_concat_neg _ _ _ (by simp [hc])]

/-- Blanks on both sides of a text are trimmed away, up to its own first and last characters. -/
theorem trim_padded
    {before core after : Text} (hbefore : ∀ c ∈ before, isBlank c = true)
    (hafter : ∀ c ∈ after, isBlank c = true)
    {first last : Char} (hfirst : isBlank first = false) (hlast : isBlank last = false) :
    trim (before ++ (first :: (core ++ [last])) ++ after) = first :: (core ++ [last]) := by
  have hend : trimEnd (core ++ [last] ++ after) = core ++ [last] := by
    rw [trimEnd, List.reverse_append, List.dropWhile_append_of_pos (by simpa using hafter)]
    simp [hlast]
  rw [List.append_assoc, trim_append_of_blank hbefore, List.cons_append,
    trim_cons_of_not_blank hfirst, hend]

theorem length_trimEnd_le_append (s t : Text) :
    (trimEnd t).length ≤ (trimEnd (s ++ t)).length := by
  simp only [trimEnd, List.length_reverse, List.reverse_append, List.dropWhile_append]
  split
  · next h =>
    rw [List.isEmpty_iff] at h
    simp [h]
  · simp

theorem length_trim_le_trimEnd (t : Text) :
    (trim t).length ≤ (trimEnd t).length := by
  have hsplit : t.takeWhile isBlank ++ trimStart t = t := List.takeWhile_append_dropWhile
  calc
    (trim t).length ≤ (trimEnd (t.takeWhile isBlank ++ trimStart t)).length :=
      length_trimEnd_le_append _ _
    _ = (trimEnd t).length := by rw [hsplit]

/-! ## Repeated units -/

theorem mem_of_mem_repeated
    {c : Char} {unit : Text} {count : ℕ} (hc : c ∈ repeated unit count) :
    c ∈ unit := by
  rw [repeated_eq, List.mem_flatten] at hc
  obtain ⟨piece, hpiece, hc⟩ := hc
  rw [List.eq_of_mem_replicate hpiece] at hc
  exact hc

theorem trim_repeated_append
    {unit : Text} (hunit : IsIndent unit) (count : ℕ) (l : Text) :
    trim (repeated unit count ++ l) = trim l := by
  apply trim_append_of_blank
  intro c hc
  exact (hunit c (mem_of_mem_repeated hc)).1

theorem newline_not_mem_repeated_append
    {unit l : Text} (hunit : IsIndent unit) (hl : '\n' ∉ l) (count : ℕ) :
    '\n' ∉ repeated unit count ++ l := by
  rw [List.mem_append, not_or]
  refine ⟨?_, hl⟩
  intro hmem
  exact (hunit _ (mem_of_mem_repeated hmem)).2 rfl

/-! ## Pieces of a text -/

theorem includes_iff_infix (part text : Text) :
    includes part text = true ↔ part <:+: text := by
  induction text with
  | nil => simp [includes]
  | cons c text ih =>
      rw [includes, Bool.or_eq_true, ih, List.isPrefixOf_iff_prefix, List.infix_cons_iff]

/-! ## Two newlines in a row -/

theorem includes_newlines_of_not_mem
    {l : Text} (hl : '\n' ∉ l) :
    includes ['\n', '\n'] l = false := by
  induction l with
  | nil => rfl
  | cons c cs ih =>
      rw [List.mem_cons, not_or] at hl
      simp [includes, List.isPrefixOf, hl.1, ih hl.2]

theorem includes_newlines_append_newline
    {l : Text} (hl : '\n' ∉ l) (t : Text) :
    includes ['\n', '\n'] (l ++ '\n' :: t) =
      (['\n'].isPrefixOf t || includes ['\n', '\n'] t) := by
  induction l with
  | nil => simp [includes]
  | cons c cs ih =>
      rw [List.mem_cons, not_or] at hl
      simp [includes, hl.1, ih hl.2]

/-- A joined text starts with a newline when its first line is empty and another one follows. -/
theorem newline_isPrefixOf_unlines
    {m : Text} (hm : '\n' ∉ m) (ls : List Text) :
    ['\n'].isPrefixOf (unlines (m :: ls)) = true ↔ m = [] ∧ ls ≠ [] := by
  cases m with
  | nil =>
      cases ls with
      | nil => simp [unlines]
      | cons l ls => simp [unlines]
  | cons c cs =>
      rw [List.mem_cons, not_or] at hm
      cases ls with
      | nil => simp [unlines, hm.1]
      | cons l ls => simp [unlines, hm.1]

/-- Two newlines follow each other in a joined text when an inner line is empty. -/
theorem includes_newlines_unlines
    {ls : List Text} (hls : ∀ l ∈ ls, '\n' ∉ l) :
    includes ['\n', '\n'] (unlines ls) = true ↔ [] ∈ ls.tail.dropLast := by
  induction ls with
  | nil => simp [unlines, includes]
  | cons l ls ih =>
      obtain ⟨hl, hrest⟩ := List.forall_mem_cons.mp hls
      cases ls with
      | nil => simp [unlines, includes_newlines_of_not_mem hl]
      | cons m ms =>
          have hm : '\n' ∉ m := hrest m List.mem_cons_self
          rw [unlines_cons l (by simp), includes_newlines_append_newline hl, Bool.or_eq_true,
            newline_isPrefixOf_unlines hm, ih hrest]
          cases ms with
          | nil => simp
          | cons k ks => simp [eq_comm]

end Text
end Reindent
