import Reindent.Proofs.Buffer.Offset
import Reindent.Tool.Text

/-!
# Formatting is a splice

Formatting a span of a text is carried out as an edit: the span is turned into offsets, the edit is
made from the text between them, and applying it turns the span into offsets once more.  The
outcome is the same as cutting the text at the two offsets and laying out what lies between them.
A span whose end comes before its start covers nothing, and then the text stays as it is.
-/

namespace Reindent

namespace Buffer

theorem take_append_slice
    (text : Text) {start stop : ℕ} (h : start ≤ stop) :
    text.take start ++ slice text start stop = text.take stop := by
  have hstop : stop = start + (stop - start) := by omega
  conv_rhs => rw [hstop]
  rw [slice, List.take_add]

theorem take_append_slice_append_drop
    (text : Text) {start stop : ℕ} (h : start ≤ stop) :
    text.take start ++ slice text start stop ++ text.drop stop = text := by
  rw [take_append_slice text h, List.take_append_drop]

theorem slice_eq_nil_of_lt
    (text : Text) {start stop : ℕ} (h : stop < start) :
    slice text start stop = [] := by
  rw [slice, Nat.sub_eq_zero_of_le h.le, List.take_zero]

theorem slice_zero_length (text : Text) :
    slice text 0 text.length = text := by
  simp [slice]

theorem offsetAt_fullSpan_start (text : Text) :
    offsetAt text (fullSpan text).start = 0 := by
  rw [fullSpan, offsetAt_positionAt]
  simp [clamp]

theorem offsetAt_fullSpan_stop (text : Text) :
    offsetAt text (fullSpan text).stop = text.length := by
  rw [fullSpan, offsetAt_positionAt]
  simp [clamp]

end Buffer

theorem Layout.format_nil (unit : Text) :
    format unit [] = [] := rfl

namespace Assist

/-- The text with what lies between two offsets laid out.  Nothing lies between them when the
second one comes first. -/
def spliced (unit text : Text) (start stop : ℕ) : Text :=
  if start ≤ stop then
    text.take start ++ Layout.format unit (Buffer.slice text start stop) ++ text.drop stop
  else text

theorem spliced_zero_length (unit text : Text) :
    spliced unit text 0 text.length = Layout.format unit text := by
  simp [spliced, Buffer.slice_zero_length]

/-- A splice changes nothing exactly when the layout of the stretch changes nothing. -/
theorem spliced_eq_iff (unit text : Text) (start stop : ℕ) :
    spliced unit text start stop = text ↔
      Layout.format unit (Buffer.slice text start stop) = Buffer.slice text start stop := by
  by_cases h : start ≤ stop
  · rw [spliced, if_pos h]
    conv_lhs => rhs; rw [← Buffer.take_append_slice_append_drop text h]
    rw [List.append_cancel_right_eq, List.append_cancel_left_eq]
  · rw [spliced, if_neg h, Buffer.slice_eq_nil_of_lt text (Nat.lt_of_not_le h),
      Layout.format_nil]
    simp

/-- The text with what a span covers laid out. -/
def splicedSpan (unit text : Text) (span : Span) : Text :=
  spliced unit text (Buffer.offsetAt text span.start) (Buffer.offsetAt text span.stop)

theorem formatSpan_eq_none_iff (unit text : Text) (span : Span) :
    formatSpan unit text span = none ↔ splicedSpan unit text span = text := by
  rw [splicedSpan, spliced_eq_iff, formatSpan, Buffer.textIn]
  split
  · next h => simp [h]
  · next h => simp [h]

/-- Making the edit for a span is the splice between its offsets. -/
theorem applied_formatSpan (unit text : Text) (span : Span) :
    applied text (formatSpan unit text span) = splicedSpan unit text span := by
  by_cases hsame : splicedSpan unit text span = text
  · rw [(formatSpan_eq_none_iff unit text span).mpr hsame, hsame, applied]
  · -- A span that covers nothing would have been left alone.
    have hle : Buffer.offsetAt text span.start ≤ Buffer.offsetAt text span.stop := by
      by_contra hlt
      exact hsame (if_neg hlt)
    have hchanged : Layout.format unit (Buffer.textIn text span) ≠ Buffer.textIn text span := by
      intro heq
      exact hsame ((spliced_eq_iff _ _ _ _).mpr heq)
    have hedit : formatSpan unit text span =
        some { span, newText := Layout.format unit (Buffer.textIn text span) } :=
      if_neg hchanged
    rw [hedit, splicedSpan, spliced, if_pos hle]
    rfl

theorem applied_formatAll (unit text : Text) :
    applied text (formatAll unit text) = Layout.format unit text := by
  by_cases hsame : Layout.format unit text = text
  · rw [formatAll, if_pos hsame, hsame, applied]
  · rw [formatAll, if_neg hsame]
    simp [applied, Buffer.applyOne, Buffer.locate, Buffer.offsetAt_fullSpan_start,
      Buffer.offsetAt_fullSpan_stop]

/-- The edits that format a text never overlap. -/
theorem applyAll_toList (text : Text) (edit : Option Edit) :
    Buffer.applyAll text edit.toList = .ok (applied text edit) := by
  cases edit with
  | none => exact Buffer.applyAll_nil text
  | some e => exact Buffer.applyAll_singleton text e

theorem tool_formatSpan (text : Text) (span : Span) (memory : ℕ) (indent : Tool.Indent) :
    Tool.formatSpan memory text span indent =
      Tool.withUnit memory "format_range" indent fun unit =>
        Tool.formatted "format_range" (decide (splicedSpan unit text span ≠ text))
          (splicedSpan unit text span) := by
  have hchanged : ∀ unit, (formatSpan unit text span).isSome =
      decide (splicedSpan unit text span ≠ text) := by
    intro unit
    rw [Bool.eq_iff_iff, decide_eq_true_iff, ne_eq, ← formatSpan_eq_none_iff,
      Option.isSome_iff_ne_none]
  simp only [Tool.formatSpan, hchanged, applied_formatSpan]

/-- Formatting a span by edits is the splice between its offsets, for any integers in the span.
There is no edit exactly when the splice is the text itself, and the tool for spans reports a change
in all other cases.  Formatting the whole text by edits is its layout, as it is for every span with
the text's two ends as its offsets. -/
theorem applyAll_formatSpan_eq_splicedSpan (unit text : Text) (span : Span) :
    Buffer.applyAll text (formatSpan unit text span).toList = .ok (splicedSpan unit text span) ∧
      ((formatSpan unit text span).toList = [] ↔ splicedSpan unit text span = text) ∧
      (∀ memory indent, Tool.formatSpan memory text span indent =
        Tool.withUnit memory "format_range" indent fun unit =>
          Tool.formatted "format_range" (decide (splicedSpan unit text span ≠ text))
            (splicedSpan unit text span)) ∧
      Buffer.applyAll text (formatAll unit text).toList = .ok (Layout.format unit text) ∧
      (Buffer.offsetAt text span.start = 0 → Buffer.offsetAt text span.stop = text.length →
        splicedSpan unit text span = Layout.format unit text) := by
  refine ⟨?_, ?_, tool_formatSpan text span, ?_, ?_⟩
  · rw [applyAll_toList, applied_formatSpan]
  · rw [Option.toList_eq_nil_iff, formatSpan_eq_none_iff]
  · rw [applyAll_toList, applied_formatAll]
  · intro hstart hstop
    rw [splicedSpan, hstart, hstop, spliced_zero_length]

/-- A span that begins before the text and ends behind it. -/
def beyond : Span :=
  { start := { line := -2, character := 7 }, stop := { line := 5, character := -1 } }

theorem applyAll_formatSpan_beyond :
    Buffer.offsetAt "<a>\r\n<b/>".toList beyond.start = 0 ∧
      Buffer.offsetAt "<a>\r\n<b/>".toList beyond.stop = "<a>\r\n<b/>".toList.length ∧
      Buffer.applyAll "<a>\r\n<b/>".toList
          (formatSpan Layout.tab "<a>\r\n<b/>".toList beyond).toList =
        .ok "<a>\n\t<b/>".toList := by
  have hstart : Buffer.offsetAt "<a>\r\n<b/>".toList beyond.start = 0 := by decide
  have hstop : Buffer.offsetAt "<a>\r\n<b/>".toList beyond.stop =
      "<a>\r\n<b/>".toList.length := by decide
  obtain ⟨happly, -, -, -, hwhole⟩ :=
    applyAll_formatSpan_eq_splicedSpan Layout.tab "<a>\r\n<b/>".toList beyond
  refine ⟨hstart, hstop, ?_⟩
  rw [happly, hwhole hstart hstop]
  decide +kernel

end Assist
end Reindent
