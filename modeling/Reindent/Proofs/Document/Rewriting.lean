import Reindent.Document.File
import Reindent.Proofs.Assist.Splice
import Reindent.Proofs.Layout.Characters

/-!
# Writing a document back

A document is read through a filter: line ends become newlines, and a byte-order mark at the front
is lost.  So two byte sequences can read as the same text, and a new text could have the old bytes.
It never has: the formatted text has no carriage return, and formatting puts no byte-order mark
before a text.  A document whose text changes gets other bytes when it is written back.

What is written reads back as the formatted text, unless the formatted text starts with a byte-order
mark of its own.
-/

namespace Reindent

/-! ## Line ends and the byte-order mark -/

namespace Text

theorem return_not_mem_plainLineEnds (t : Text) :
    '\r' ∉ plainLineEnds t := by
  fun_induction plainLineEnds t with
  | case1 => exact List.not_mem_nil
  | case2 rest ih => exact List.not_mem_cons_of_ne_of_not_mem (by decide) ih
  | case3 c rest _ ih =>
      refine List.not_mem_cons_of_ne_of_not_mem ?_ ih
      split
      · decide
      · next hc => exact fun h => hc h.symm

theorem plainLineEnds_eq_self
    {t : Text} (h : '\r' ∉ t) :
    plainLineEnds t = t := by
  fun_induction plainLineEnds t with
  | case1 => rfl
  | case2 rest ih => exact absurd List.mem_cons_self h
  | case3 c rest _ ih =>
      obtain ⟨hc, hrest⟩ := List.ne_and_not_mem_of_not_mem_cons h
      rw [if_neg (Ne.symm hc), ih hrest]

theorem return_not_mem_of_ofDocument?
    {bytes : ByteArray} {text : Text} (h : ofDocument? bytes = some text) :
    '\r' ∉ text := by
  rw [ofDocument?] at h
  split at h
  · rw [← Option.some.inj h]
    exact List.not_mem_nil
  · obtain ⟨t, -, rfl⟩ := Option.map_eq_some_iff.mp h
    exact return_not_mem_plainLineEnds _

theorem toList_loop_eq (bytes : ByteArray) (i : ℕ) (taken : List UInt8) :
    ByteArray.toList.loop bytes i taken = taken.reverse ++ bytes.data.toList.drop i := by
  fun_induction ByteArray.toList.loop bytes i taken with
  | case1 i taken h ih =>
      have hi : i < bytes.data.toList.length := h
      rw [ih, List.drop_eq_getElem_cons hi]
      simp [ByteArray.get!, h]
  | case2 i taken h =>
      have hi : bytes.data.toList.length ≤ i := Nat.le_of_not_lt h
      rw [List.drop_of_length_le hi, List.append_nil]

/-- The start of a byte-order mark, with nothing after it, is the form of no text but the empty
one. -/
theorem eq_nil_of_isPartialMark
    {bytes : ByteArray} {t : Text} (h : isPartialMark bytes = true)
    (hread : ofUtf8? bytes = some t) :
    t = [] := by
  obtain ⟨⟨units⟩⟩ := bytes
  rw [isPartialMark, Bool.and_eq_true, decide_eq_true_eq, List.isPrefixOf_iff_prefix,
    ByteArray.toList, toList_loop_eq] at h
  obtain ⟨hsize, hstart⟩ := h
  have hunits : units = markBytes.take units.length := List.prefix_iff_eq_take.mp hstart
  have hshort : units.length < 3 := hsize
  have hempty : ofUtf8? ⟨⟨markBytes.take 0⟩⟩ = some [] := by decide +kernel
  have hone : ofUtf8? ⟨⟨markBytes.take 1⟩⟩ = none := by decide +kernel
  have htwo : ofUtf8? ⟨⟨markBytes.take 2⟩⟩ = none := by decide +kernel
  rw [hunits] at hread
  match hlength : units.length, hshort with
  | 0, _ =>
      rw [hlength, hempty] at hread
      exact (Option.some.inj hread).symm
  | 1, _ =>
      rw [hlength, hone] at hread
      cases hread
  | 2, _ =>
      rw [hlength, htwo] at hread
      cases hread

/-- What is written for a text reads as the text, its line ends and its mark apart. -/
theorem ofDocument?_toUtf8 (t : Text) :
    ofDocument? t.toUtf8 = some (plainLineEnds (dropMark t)) := by
  rw [ofDocument?, ofUtf8?_toUtf8]
  split
  · next hpartial =>
    rw [eq_nil_of_isPartialMark hpartial (ofUtf8?_toUtf8 t)]
    rfl
  · rfl

theorem ofDocument?_toUtf8_of_plain
    {t : Text} (hreturn : '\r' ∉ t) :
    ofDocument? t.toUtf8 = some (dropMark t) := by
  rw [ofDocument?_toUtf8, plainLineEnds_eq_self fun hr => hreturn ((dropMark_sublist t).subset hr)]

end Text

/-! ## The formatted text -/

namespace Assist

theorem mem_formatText
    {c : Char} {unit text : Text} {range : Option LineRange}
    (hc : c ∈ formatText unit range text) :
    c = '\n' ∨ c ∈ unit ∨ c ∈ text := by
  cases range with
  | none => exact Layout.mem_format hc
  | some lines =>
      rw [formatText, applied_formatSpan, splicedSpan, spliced] at hc
      split at hc
      · rw [List.mem_append, List.mem_append] at hc
        rcases hc with (hc | hc) | hc
        · exact Or.inr (Or.inr (List.mem_of_mem_take hc))
        · rcases Layout.mem_format hc with hc | hc | hc
          · exact Or.inl hc
          · exact Or.inr (Or.inl hc)
          · exact Or.inr (Or.inr (List.mem_of_mem_drop (List.mem_of_mem_take hc)))
        · exact Or.inr (Or.inr (List.mem_of_mem_drop hc))
      · exact Or.inr (Or.inr hc)

/-- A character put before a text can be moved behind a part that both share. -/
theorem eq_cons_of_append_eq_cons_append
    {before changed kept : Text} {c : Char} (h : before ++ changed = c :: (before ++ kept)) :
    changed = c :: kept := by
  induction before with
  | nil => exact h
  | cons d before ih =>
      obtain ⟨rfl, htail⟩ := List.cons.inj h
      exact ih htail

theorem formatText_ne_mark_cons (unit : Text) (range : Option LineRange) (text : Text) :
    formatText unit range text ≠ Text.byteOrderMark :: text := by
  cases range with
  | none => exact Layout.format_ne_mark_cons unit text
  | some lines =>
      intro heq
      rw [formatText, applied_formatSpan, splicedSpan, spliced] at heq
      split at heq
      · next hle =>
        -- Moved behind the part before the span, the mark stands before the text of the span.
        conv_rhs at heq => rw [← Buffer.take_append_slice_append_drop text hle]
        rw [← List.cons_append, List.append_cancel_right_eq] at heq
        exact Layout.format_ne_mark_cons unit _ (eq_cons_of_append_eq_cons_append heq)
      · exact List.cons_ne_self _ _ heq.symm

theorem return_not_mem_formatText
    {unit text : Text} (hunit : '\r' ∉ unit) (htext : '\r' ∉ text) (range : Option LineRange) :
    '\r' ∉ formatText unit range text := by
  intro hmem
  rcases mem_formatText hmem with hnewline | hmem | hmem
  · exact absurd hnewline (by decide)
  · exact hunit hmem
  · exact htext hmem

/-- A text that formatting changes does not get the bytes it was read from. -/
theorem toUtf8_formatText_ne
    {unit : Text} (hreturn : '\r' ∉ unit) (range : Option LineRange)
    {bytes : ByteArray} {text : Text} (hread : Text.ofDocument? bytes = some text)
    (hchanged : formatText unit range text ≠ text) :
    (formatText unit range text).toUtf8 ≠ bytes := by
  intro hbytes
  have hplain := return_not_mem_formatText hreturn (Text.return_not_mem_of_ofDocument? hread) range
  rw [← hbytes, Text.ofDocument?_toUtf8_of_plain hplain, Option.some.injEq] at hread
  rcases Text.eq_or_eq_mark_cons_dropMark (formatText unit range text) with hsame | hmarked
  · exact hchanged (hsame.trans hread)
  · rw [hread] at hmarked
    exact formatText_ne_mark_cons unit range text hmarked

/-- A formatted text reads back from its bytes, unless its first line starts with a mark. -/
theorem ofDocument?_toUtf8_format
    {unit text : Text} (hunit : '\r' ∉ unit) (htext : '\r' ∉ text)
    (hmark : ((Layout.trimmedLines text).headD []).head? ≠ some Text.byteOrderMark) :
    Text.ofDocument? (Layout.format unit text).toUtf8 = some (Layout.format unit text) := by
  have hplain : '\r' ∉ Layout.format unit text := return_not_mem_formatText hunit htext none
  rw [Text.ofDocument?_toUtf8_of_plain hplain]
  rcases Text.eq_or_eq_mark_cons_dropMark (Layout.format unit text) with hsame | hmarked
  · rw [← hsame]
  · refine absurd ?_ (Layout.head?_format_ne_mark unit hmark)
    rw [hmarked, List.head?_cons]

end Assist

/-- The unit of indentation of a project has blanks only, and no line end among them. -/
theorem Settings.isIndent_of_unit
    {settings : Settings} {memory : ℕ} {unit : Text} (h : settings.unit memory = .ok unit) :
    Text.IsIndent unit ∧ '\r' ∉ unit := by
  rw [Settings.unit] at h
  split at h
  · rw [← Except.ok.inj h]
    decide
  · rw [Layout.checkedSpaces] at h
    cases hcheck : Text.checkRepeat [' '] settings.indentSize memory with
    | error e => simp [hcheck, bind, Except.bind] at h
    | ok u =>
        have hunit : Layout.spaces settings.indentSize = unit := by
          simpa [hcheck, bind, Except.bind, pure, Except.pure] using h
        rw [← hunit, Layout.spaces]
        refine ⟨?_, ?_⟩
        · intro c hc
          rw [List.eq_of_mem_replicate hc]
          decide
        · intro hc
          exact absurd (List.eq_of_mem_replicate hc) (by decide)

end Reindent
