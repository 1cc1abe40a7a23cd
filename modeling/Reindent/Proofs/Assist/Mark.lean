import Reindent.Proofs.Document.Rewriting

/-!
# A byte-order mark before a text

The same bytes give two texts: the standard input keeps the byte-order mark that a document loses.
Layout drops one mark more, from the front of what it lays out.  So the two texts are formatted
alike exactly when there is no mark, or when there is one and the formatting starts at the first
line.  Whether formatting changes them is another matter: the mark alone is a change where the
formatting starts at the first line, and none where it does not.
-/

namespace Reindent

namespace Text

/-- How many byte-order marks a text starts with. -/
def marks (t : Text) : ℕ :=
  (t.takeWhile (· = byteOrderMark)).length

theorem dropMark_mark_cons (t : Text) : dropMark (byteOrderMark :: t) = t := by
  simp [dropMark]

theorem marks_mark_cons (t : Text) : marks (byteOrderMark :: t) = marks t + 1 := by
  simp [marks]

theorem marks_eq_zero_iff (t : Text) : marks t = 0 ↔ t.head? ≠ some byteOrderMark := by
  cases t with
  | nil => simp [marks]
  | cons c cs => by_cases hc : c = byteOrderMark <;> simp [marks, hc]

theorem dropMark_eq_self {t : Text} (h : t.head? ≠ some byteOrderMark) : dropMark t = t := by
  cases t with
  | nil => rfl
  | cons c cs => exact if_neg fun hc => h (congrArg some hc)

theorem plainLineEnds_dropMark (t : Text) :
    plainLineEnds (dropMark t) = dropMark (plainLineEnds t) := by
  fun_cases plainLineEnds t with
  | case1 => rfl
  | case2 rest => rfl
  | case3 c rest hpair =>
      by_cases hc : c = byteOrderMark
      · subst hc
        rfl
      · have hkept : (if c = '\r' then '\n' else c) ≠ byteOrderMark := by
          split
          · decide
          · exact hc
        rw [dropMark, if_neg hc, plainLineEnds.eq_3 _ _ hpair, dropMark, if_neg hkept]

/-- A document has the text of the input with its bytes, less one mark. -/
theorem ofDocument?_of_ofInput?
    {bytes : ByteArray} {input : Text} (h : ofInput? bytes = some input) :
    ofDocument? bytes = some (dropMark input) := by
  obtain ⟨t, ht, rfl⟩ := Option.map_eq_some_iff.mp h
  rw [ofDocument?]
  split
  · next hpartial =>
    rw [eq_nil_of_isPartialMark hpartial ht]
    rfl
  · rw [ht, Option.map_some, plainLineEnds_dropMark]

end Text

namespace Layout

theorem trimmedLines_mark_cons (s : Text) :
    trimmedLines (Text.byteOrderMark :: s) = s.lines.map Text.trim := by
  rw [trimmedLines, Text.dropMark_mark_cons]

/-- Behind a mark, the first line is laid out as it would be without it. -/
theorem exists_lines_format_mark_cons
    (unit : Text) {s l : Text} {ls : List Text} (hs : s.lines = l :: ls) :
    ∃ more, (format unit (Text.byteOrderMark :: s)).lines = Text.trim l :: more := by
  obtain ⟨first, rest, more, hcons, hlines⟩ := exists_lines_format unit (Text.byteOrderMark :: s)
  rw [trimmedLines_mark_cons, hs, List.map_cons] at hcons
  rw [← (List.cons.inj hcons).1] at hlines
  exact ⟨more, hlines⟩

theorem format_mark_cons_ne (unit s : Text) :
    format unit (Text.byteOrderMark :: s) ≠ Text.byteOrderMark :: s := by
  intro heq
  obtain ⟨l, ls, hs⟩ := List.exists_cons_of_ne_nil (Text.lines_ne_nil s)
  obtain ⟨more, hlines⟩ := exists_lines_format_mark_cons unit hs
  rw [heq, Text.lines_cons_of_ne (by decide) hs] at hlines
  have hshort := (Text.trim_sublist l).length_le
  rw [← (List.cons.inj hlines).1, List.length_cons] at hshort
  omega

/-- A mark more makes no difference to a layout, unless there is one already. -/
theorem format_mark_cons_eq_iff (unit s : Text) :
    format unit (Text.byteOrderMark :: s) = format unit s ↔
      s.head? ≠ some Text.byteOrderMark := by
  constructor
  · intro heq hhead
    obtain ⟨cs, rfl⟩ := List.head?_eq_some_iff.mp hhead
    obtain ⟨l, ls, hcs⟩ := List.exists_cons_of_ne_nil (Text.lines_ne_nil cs)
    obtain ⟨more, hone⟩ := exists_lines_format_mark_cons unit hcs
    obtain ⟨more', htwo⟩ := exists_lines_format_mark_cons unit
      (Text.lines_cons_of_ne (show Text.byteOrderMark ≠ '\n' by decide) hcs)
    rw [heq, hone, Text.trim_cons_of_not_blank (by decide)] at htwo
    have hshort := Text.length_trim_le_trimEnd l
    rw [(List.cons.inj htwo).1, List.length_cons] at hshort
    omega
  · intro hhead
    rw [format, trimmedLines_mark_cons, format, trimmedLines, Text.dropMark_eq_self hhead]

end Layout

/-! ## Where the formatting starts -/

namespace Assist

/-- The offsets between which a text is laid out. -/
def startOf (range : Option LineRange) (text : Text) : ℕ :=
  match range with
  | none => 0
  | some lines => Buffer.offsetAt text lines.span.start

def stopOf (range : Option LineRange) (text : Text) : ℕ :=
  match range with
  | none => text.length
  | some lines => Buffer.offsetAt text lines.span.stop

theorem formatText_eq_spliced (unit : Text) (range : Option LineRange) (text : Text) :
    formatText unit range text = spliced unit text (startOf range text) (stopOf range text) := by
  cases range with
  | none => exact (spliced_zero_length unit text).symm
  | some lines => exact applied_formatSpan unit text lines.span

/-- The lines of a range are numbered from one, the first of them first. -/
def Ordered (range : Option LineRange) : Prop :=
  ∀ lines ∈ range, 1 ≤ lines.first ∧ lines.first ≤ lines.last

/-- The formatting starts at the first line. -/
def FromTop (range : Option LineRange) : Prop :=
  ∀ lines ∈ range, lines.first = 1

/-- A character put before a text moves every line but the first by one. -/
theorem offsetAt_cons
    {c : Char} (hc : c ≠ '\n') (text : Text) {line : Int} (hline : 1 ≤ line) :
    Buffer.offsetAt (c :: text) { line, character := 0 } =
      Buffer.offsetAt text { line, character := 0 } + 1 := by
  obtain ⟨n, rfl⟩ : ∃ n : ℕ, line = (n + 1 : ℕ) := ⟨(line - 1).toNat, by omega⟩
  obtain ⟨l, ls, htext⟩ := List.exists_cons_of_ne_nil (Text.lines_ne_nil text)
  have hlines := Text.lines_cons_of_ne hc htext
  by_cases hlt : n + 1 < text.lines.length
  · have hlt' : n + 1 < (Text.lines (c :: text)).length := by
      rw [hlines, List.length_cons]
      rwa [htext, List.length_cons] at hlt
    rw [Buffer.offsetAt_line_zero hlt, Buffer.offsetAt_line_zero hlt', Buffer.lineStart_eq,
      Buffer.lineStart_eq, hlines, htext, List.take_succ_cons, List.take_succ_cons,
      Text.ended_cons, Text.ended_cons]
    simp only [List.cons_append, List.length_cons]
  · have hle' : (Text.lines (c :: text)).length ≤ n + 1 := by
      rw [hlines, List.length_cons]
      rw [htext, List.length_cons] at hlt
      omega
    rw [Buffer.offsetAt_of_le (Nat.le_of_not_lt hlt), Buffer.offsetAt_of_le hle',
      List.length_cons]

section

variable {range : Option LineRange} (hrange : Ordered range)

theorem startOf_of_fromTop (htop : FromTop range) (text : Text) : startOf range text = 0 := by
  cases range with
  | none => rfl
  | some lines =>
      have hfirst : lines.first - 1 = (0 : ℕ) := by
        rw [htop lines rfl]
        rfl
      have hzero : 0 < text.lines.length := List.length_pos_of_ne_nil (Text.lines_ne_nil text)
      rw [startOf, LineRange.span]
      simp only [hfirst, Buffer.offsetAt_line_zero hzero]
      rfl

include hrange

theorem stopOf_cons {c : Char} (hc : c ≠ '\n') (text : Text) :
    stopOf range (c :: text) = stopOf range text + 1 := by
  cases range with
  | none => rfl
  | some lines =>
      obtain ⟨hfirst, hlast⟩ := hrange lines rfl
      exact offsetAt_cons hc text (by show 1 ≤ lines.last; omega)

theorem startOf_cons (htop : ¬ FromTop range) {c : Char} (hc : c ≠ '\n') (text : Text) :
    startOf range (c :: text) = startOf range text + 1 := by
  cases range with
  | none => exact absurd nofun htop
  | some lines =>
      obtain ⟨hfirst, -⟩ := hrange lines rfl
      have hlater : lines.first ≠ 1 := fun hone => htop fun other hother => by
        rwa [← Option.some.inj hother]
      exact offsetAt_cons hc text (by show 1 ≤ lines.first - 1; omega)

end

/-! ## Formatting behind a mark -/

theorem spliced_cons_succ (unit : Text) (c : Char) (text : Text) (start stop : ℕ) :
    spliced unit (c :: text) (start + 1) (stop + 1) = c :: spliced unit text start stop := by
  by_cases hle : start ≤ stop
  · have hle' : start + 1 ≤ stop + 1 := Nat.succ_le_succ hle
    simp [spliced, Buffer.slice, hle]
  · simp [spliced, hle]

theorem spliced_zero (unit text : Text) (stop : ℕ) :
    spliced unit text 0 stop = Layout.format unit (text.take stop) ++ text.drop stop := by
  simp [spliced, Buffer.slice]

section

variable (unit : Text) {range : Option LineRange} (hrange : Ordered range) (text : Text)
include hrange

theorem formatText_mark_cons_of_not_fromTop (htop : ¬ FromTop range) :
    formatText unit range (Text.byteOrderMark :: text) =
      Text.byteOrderMark :: formatText unit range text := by
  rw [formatText_eq_spliced, formatText_eq_spliced, startOf_cons hrange htop (by decide),
    stopOf_cons hrange (by decide), spliced_cons_succ]

theorem formatText_mark_cons_of_fromTop (htop : FromTop range) :
    formatText unit range (Text.byteOrderMark :: text) =
      Layout.format unit (Text.byteOrderMark :: text.take (stopOf range text)) ++
        text.drop (stopOf range text) := by
  rw [formatText_eq_spliced, startOf_of_fromTop htop, stopOf_cons hrange (by decide), spliced_zero,
    List.take_succ_cons, List.drop_succ_cons]

/-- Where the formatting starts at the first line, a mark is always a change. -/
theorem formatText_mark_cons_ne (htop : FromTop range) :
    formatText unit range (Text.byteOrderMark :: text) ≠ Text.byteOrderMark :: text := by
  rw [formatText_mark_cons_of_fromTop unit hrange text htop]
  intro heq
  conv_rhs at heq => rw [← List.take_append_drop (stopOf range text) text]
  rw [← List.cons_append, List.append_cancel_right_eq] at heq
  exact Layout.format_mark_cons_ne unit _ heq

theorem head?_take_stopOf
    (hhead : text.head? = some Text.byteOrderMark) :
    (text.take (stopOf range text)).head? = some Text.byteOrderMark := by
  obtain ⟨cs, rfl⟩ := List.head?_eq_some_iff.mp hhead
  rw [stopOf_cons hrange (by decide)]
  rfl

theorem formatText_mark_cons_eq_iff (htop : FromTop range) :
    formatText unit range (Text.byteOrderMark :: text) = formatText unit range text ↔
      text.head? ≠ some Text.byteOrderMark := by
  rw [formatText_mark_cons_of_fromTop unit hrange text htop, formatText_eq_spliced,
    startOf_of_fromTop htop, spliced_zero, List.append_cancel_right_eq,
    Layout.format_mark_cons_eq_iff]
  constructor
  · exact fun hstretch hhead => hstretch (head?_take_stopOf hrange text hhead)
  · intro hhead hstretch
    apply hhead
    obtain ⟨cs, hcs⟩ := List.head?_eq_some_iff.mp hstretch
    rw [← List.take_append_drop (stopOf range text) text, hcs]
    rfl

/-- A text and the same text less one mark are formatted alike exactly when there is no mark, or one
mark and the formatting starts at the first line. -/
theorem formatText_eq_formatText_dropMark_iff :
    formatText unit range text = formatText unit range (Text.dropMark text) ↔
      text.marks = 0 ∨ text.marks = 1 ∧ FromTop range := by
  by_cases hhead : text.head? = some Text.byteOrderMark
  · obtain ⟨cs, rfl⟩ := List.head?_eq_some_iff.mp hhead
    rw [Text.marks_mark_cons, Text.dropMark_mark_cons]
    by_cases htop : FromTop range
    · rw [formatText_mark_cons_eq_iff unit hrange cs htop, ← Text.marks_eq_zero_iff]
      simp [htop]
    · rw [formatText_mark_cons_of_not_fromTop unit hrange cs htop]
      simp [htop]
  · rw [Text.dropMark_eq_self hhead, (Text.marks_eq_zero_iff text).mpr hhead]
    simp

/-- Formatting changes both or neither exactly when there is no mark, or the formatting does not
start at the first line, or it changes the text without its mark. -/
theorem changes_iff_changes_dropMark_iff :
    (formatText unit range text ≠ text ↔
        formatText unit range (Text.dropMark text) ≠ Text.dropMark text) ↔
      text.marks = 0 ∨ ¬ FromTop range ∨
        formatText unit range (Text.dropMark text) ≠ Text.dropMark text := by
  by_cases hhead : text.head? = some Text.byteOrderMark
  · obtain ⟨cs, rfl⟩ := List.head?_eq_some_iff.mp hhead
    rw [Text.marks_mark_cons, Text.dropMark_mark_cons]
    by_cases htop : FromTop range
    · simp [formatText_mark_cons_ne unit hrange cs htop, htop]
    · rw [formatText_mark_cons_of_not_fromTop unit hrange cs htop]
      simp [htop]
  · rw [Text.dropMark_eq_self hhead, (Text.marks_eq_zero_iff text).mpr hhead]
    simp

end

end Assist

end Reindent
