import Reindent.Proofs.Assist.Splice
import Reindent.Proofs.Layout.Flow

/-!
# Formatting a range of lines

A range of lines is formatted as the span from the start of its first line to the start of the line
behind it.  If there is such a line, the span ends with a newline, and the layout of the span sees
an empty last line.  In the markup this line is written and the newline comes out again; inside a
block that the range leaves open it is held back and lost.  So the lines around the range stay as
they are in all cases but one: then the line behind the range is joined to the opening marker of
the block.
-/

namespace Reindent

theorem Text.lines_append_newline_nil (t : Text) :
    lines (t ++ ['\n']) = lines t ++ [[]] := by
  obtain ⟨init, last, rfl, hinit, hlast⟩ := exists_eq_ended_append t
  rw [List.append_assoc, lines_ended_append hinit, lines_ended_append hinit,
    lines_append_newline hlast, lines_of_newline_not_mem hlast, lines, List.append_assoc]
  rfl

theorem Text.ended_eq_unlines_append
    {ls : List Text} (hne : ls ≠ []) :
    ended ls = unlines ls ++ ['\n'] := by
  obtain ⟨init, last, rfl⟩ := (List.eq_nil_or_concat ls).resolve_left hne
  rw [List.concat_eq_append, ← ended_append_unlines init (by simp), ended_append]
  simp [unlines, ended]

namespace Layout

theorem trimmedLines_append_newline (text : Text) :
    trimmedLines (text ++ ['\n']) = trimmedLines text ++ [[]] := by
  have hmark : Text.dropMark (text ++ ['\n']) = Text.dropMark text ++ ['\n'] := by
    cases text with
    | nil => rfl
    | cons c cs =>
        rw [List.cons_append, Text.dropMark, Text.dropMark]
        split <;> rfl
  rw [trimmedLines, hmark, Text.lines_append_newline_nil, List.map_append]
  rfl

/-- The layout of a text is in the markup at its end. -/
def EndsInMarkup (text : Text) : Prop :=
  (({} : State).after (trimmedLines text)).region = .markup

instance decidableEndsInMarkup : DecidablePred EndsInMarkup := fun text =>
  inferInstanceAs (Decidable ((({} : State).after (trimmedLines text)).region = .markup))

/-- In the markup a final newline comes out of the layout again. -/
theorem format_append_newline_of_markup
    (unit : Text) {text : Text} (hends : EndsInMarkup text) :
    format unit (text ++ ['\n']) = Text.ended (run unit {} (trimmedLines text)) := by
  have hregion : (({} : State).after (trimmedLines text)).region = .markup := hends
  have hblank : run unit (({} : State).after (trimmedLines text)) [[]] = [[]] := by
    simp [run, State.emitted, marker?_nil, hregion]
  rw [format, trimmedLines_append_newline, run_append, hblank, Text.unlines_append_nil]

/-- Inside a block a final newline is lost. -/
theorem format_append_newline_of_not_markup
    (unit : Text) {text : Text} (hends : ¬ EndsInMarkup text) :
    format unit (text ++ ['\n']) = format unit text := by
  have hheld : run unit (({} : State).after (trimmedLines text)) [[]] = [] := by
    cases hregion : (({} : State).after (trimmedLines text)).region with
    | markup => exact absurd hregion hends
    | inside block => simp [run, State.emitted, marker?_nil, hregion]
  rw [format, trimmedLines_append_newline, run_append, hheld, List.append_nil, format]

/-- Lines that end inside a block opened it with a marker and have no marker behind that one. -/
theorem State.exists_opener_of_after_inside
    {st : State} (hregion : st.region = .markup) {lines : List Text} {block : Block}
    (hafter : (st.after lines).region = .inside block) :
    ∃ front opener body, lines = front ++ opener :: body ∧
      marker? opener = some (.opens block) ∧ ∀ line ∈ body, marker? line = none := by
  induction lines using List.reverseRecOn generalizing block with
  | nil =>
      rw [State.after_nil, hregion] at hafter
      cases hafter
  | append_singleton lines line ih =>
      rw [State.after_append, State.after_cons, State.after_nil] at hafter
      cases (st.after lines).turn line with
      | opens opened hmarker =>
          rw [State.next_of_opens hmarker, State.region_enter] at hafter
          cases hafter
          exact ⟨lines, line, [], rfl, hmarker, by simp⟩
      | closes closed hmarker =>
          rw [State.next_of_closes hmarker, State.region_leave] at hafter
          cases hafter
      | held inner hmarker hinside =>
          rw [State.next_of_held hmarker hinside, State.region_holdAll, hinside] at hafter
          cases hafter
          obtain ⟨front, opener, body, rfl, hopener, hbody⟩ := ih hinside
          refine ⟨front, opener, body ++ [line], by simp, hopener, ?_⟩
          intro l hl
          rcases List.mem_append.mp hl with hl | hl
          · exact hbody l hl
          · rw [List.mem_singleton.mp hl]
            exact hmarker
      | markup hmarker hmarkup =>
          rw [State.region_next_of_markup hmarker hmarkup] at hafter
          cases hafter

/-- A layout that ends inside a block has the opening marker of the block as its last line. -/
theorem exists_run_eq_of_not_markup
    (unit : Text) {text : Text} (hends : ¬ EndsInMarkup text) :
    ∃ front opener, run unit {} (trimmedLines text) = front ++ [opener] ∧ opener ≠ [] := by
  cases hregion : (({} : State).after (trimmedLines text)).region with
  | markup => exact absurd hregion hends
  | inside block =>
      obtain ⟨front, opener, body, hlines, hopener, hbody⟩ :=
        State.exists_opener_of_after_inside (show ({} : State).region = .markup from rfl) hregion
      have hinside : ((({} : State).after front).enter block).region = .inside block :=
        State.region_enter _ block
      have hnothing := run_append_of_inside unit hinside hbody []
      rw [List.append_nil] at hnothing
      refine ⟨run unit {} front, indented unit (({} : State).after front).level opener, ?_, ?_⟩
      · rw [hlines, run_append, run, State.next_of_opens hopener, hnothing, run, List.append_nil]
        simp [State.emitted, hopener]
      · simp [indented, ne_nil_of_marker hopener]

end Layout

namespace Buffer

/-- The stretch between the starts of two lines holds the lines between them, each ended. -/
theorem slice_lineStart
    {text : Text} {start stop : ℕ} (hle : start ≤ stop) (hstop : stop < text.lines.length) :
    slice text (lineStart text start) (lineStart text stop) =
      Text.ended ((text.lines.take stop).drop start) := by
  calc
    slice text (lineStart text start) (lineStart text stop) =
        (Text.ended (text.lines.take start) ++
          Text.ended ((text.lines.take stop).drop start)).drop
            (Text.ended (text.lines.take start)).length := by
      rw [slice, ← List.drop_take, take_lineStart hstop, ← Text.ended_append,
        take_append_drop_take text.lines hle, lineStart_eq]
    _ = Text.ended ((text.lines.take stop).drop start) := List.drop_left

/-- The stretch from the start of a line to the end of the text holds the lines from it on. -/
theorem slice_lineStart_length
    {text : Text} {start : ℕ} (hstart : start < text.lines.length) :
    slice text (lineStart text start) text.length = Text.unlines (text.lines.drop start) := by
  rw [slice, ← List.drop_take, List.take_length, drop_lineStart hstart]

end Buffer

namespace Assist

/-- The lines of a text from a first to a last one, counted from one. -/
def linesIn (text : Text) (first last : ℕ) : List Text :=
  (text.lines.take last).drop (first - 1)

section

variable {unit text : Text} {first last : ℕ}
variable (hunit : Text.IsIndent unit) (hfirst : 1 ≤ first) (hle : first ≤ last)
  (hlines : first ≤ text.lines.length)

include hfirst in
theorem formatText_range_eq_spliced :
    formatText unit (some { first, last }) text =
      spliced unit text (Buffer.offsetAt text { line := (first - 1 : ℕ), character := 0 })
        (Buffer.offsetAt text { line := last, character := 0 }) := by
  have hline : (first : Int) - 1 = ((first - 1 : ℕ) : Int) := by omega
  rw [formatText, applied_formatSpan, splicedSpan, LineRange.span]
  simp only [hline]

include hfirst hle hlines in
theorem linesIn_ne_nil :
    linesIn text first last ≠ [] := by
  rw [linesIn, ne_eq, List.drop_eq_nil_iff, List.length_take]
  omega

include hfirst hle hlines in
/-- With a line behind the range, the layout of the range sees its newline. -/
theorem formatText_range_of_lt (hlast : last < text.lines.length) :
    formatText unit (some { first, last }) text =
      Text.ended (text.lines.take (first - 1)) ++
          Layout.format unit (Text.unlines (linesIn text first last) ++ ['\n']) ++
        Text.unlines (text.lines.drop last) := by
  have hstart : first - 1 < text.lines.length := by omega
  have hoffsets : Buffer.lineStart text (first - 1) ≤ Buffer.lineStart text last :=
    Buffer.lineStart_mono text (by omega)
  rw [formatText_range_eq_spliced hfirst, Buffer.offsetAt_line_zero hstart,
    Buffer.offsetAt_line_zero hlast, spliced, if_pos hoffsets, Buffer.take_lineStart hstart,
    Buffer.drop_lineStart hlast, Buffer.slice_lineStart (by omega) hlast,
    ← Text.ended_eq_unlines_append (linesIn_ne_nil hfirst hle hlines), linesIn]

include hfirst hlines in
theorem formatText_range_of_le (hlast : text.lines.length ≤ last) :
    formatText unit (some { first, last }) text =
      Text.ended (text.lines.take (first - 1)) ++
        Layout.format unit (Text.unlines (linesIn text first last)) := by
  have hstart : first - 1 < text.lines.length := by omega
  have hoffset : Buffer.lineStart text (first - 1) ≤ text.length :=
    Buffer.lineStart_le_length hstart
  rw [formatText_range_eq_spliced hfirst, Buffer.offsetAt_line_zero hstart,
    Buffer.offsetAt_of_le hlast, spliced, if_pos hoffset, Buffer.take_lineStart hstart,
    List.drop_length, Buffer.slice_lineStart_length hstart, linesIn,
    List.take_of_length_le hlast, List.append_nil]

include hunit hfirst hle hlines in
/-- A range that ends in the markup leaves the lines around it alone. -/
theorem lines_formatText_of_markup
    (hlast : last < text.lines.length)
    (hends : Layout.EndsInMarkup (Text.unlines (linesIn text first last))) :
    (formatText unit (some { first, last }) text).lines =
      text.lines.take (first - 1) ++
          (Layout.format unit (Text.unlines (linesIn text first last))).lines ++
        text.lines.drop last := by
  have hwritten := Layout.lines_format hunit (Text.unlines (linesIn text first last))
  have hplain : ∀ l ∈ Layout.run unit {} (Layout.trimmedLines
      (Text.unlines (linesIn text first last))), '\n' ∉ l := by
    rw [← hwritten]
    exact fun _ hl => Text.newline_not_mem_of_mem_lines hl
  have hrest : text.lines.drop last ≠ [] := by
    rw [ne_eq, List.drop_eq_nil_iff]
    omega
  rw [formatText_range_of_lt hfirst hle hlines hlast,
    Layout.format_append_newline_of_markup unit hends,
    List.append_assoc, Text.lines_ended_append (Text.newline_not_mem_take _ _),
    Text.lines_ended_append hplain, Text.lines_unlines hrest (Text.newline_not_mem_drop _ _),
    hwritten, List.append_assoc]

include hunit hfirst hle hlines in
/-- A range that ends inside a block is joined to the line behind it. -/
theorem lines_formatText_of_not_markup
    (hlast : last < text.lines.length)
    (hends : ¬ Layout.EndsInMarkup (Text.unlines (linesIn text first last))) :
    ∃ front opener, opener ≠ [] ∧
      (formatText unit (some { first, last }) text).lines =
        text.lines.take (first - 1) ++
          (front ++ (opener ++ text.lines[last]) :: text.lines.drop (last + 1)) := by
  obtain ⟨front, opener, hrun, hopener⟩ := Layout.exists_run_eq_of_not_markup unit hends
  have hwritten := Layout.lines_format hunit (Text.unlines (linesIn text first last))
  have hplain : ∀ l ∈ front ++ [opener], '\n' ∉ l := by
    rw [← hrun, ← hwritten]
    exact fun _ hl => Text.newline_not_mem_of_mem_lines hl
  have hlayout : Layout.format unit (Text.unlines (linesIn text first last) ++ ['\n']) =
      Text.ended front ++ opener := by
    rw [Layout.format_append_newline_of_not_markup unit hends, Layout.format, hrun,
      ← Text.ended_append_unlines front (by simp), Text.unlines]
  obtain ⟨hfront, hopenerPlain⟩ := List.forall_mem_append.mp hplain
  have hjoined : ∀ l ∈ (opener ++ text.lines[last]) :: text.lines.drop (last + 1), '\n' ∉ l := by
    refine List.forall_mem_cons.mpr ⟨?_, Text.newline_not_mem_drop _ _⟩
    rw [List.mem_append, not_or]
    exact ⟨hopenerPlain opener (by simp),
      Text.newline_not_mem_of_mem_lines (List.getElem_mem hlast)⟩
  refine ⟨front, opener, hopener, ?_⟩
  rw [formatText_range_of_lt hfirst hle hlines hlast, hlayout, List.append_assoc,
    List.append_assoc, Text.lines_ended_append (Text.newline_not_mem_take _ _),
    Text.lines_ended_append hfront, List.drop_eq_getElem_cons hlast, Text.append_unlines_cons,
    Text.lines_unlines (by simp) hjoined]

include hunit hfirst hle hlines in
/-- Then no lines at all stand between those that were to be left alone. -/
theorem not_exists_lines_formatText_of_not_markup
    (hlast : last < text.lines.length)
    (hends : ¬ Layout.EndsInMarkup (Text.unlines (linesIn text first last))) :
    ¬ ∃ written, (formatText unit (some { first, last }) text).lines =
      text.lines.take (first - 1) ++ written ++ text.lines.drop last := by
  rintro ⟨written, hwritten⟩
  obtain ⟨front, opener, hopener, hjoined⟩ :=
    lines_formatText_of_not_markup hunit hfirst hle hlines hlast hends
  -- Both lists end with the lines behind the next one, so that line had to stay as it was.
  rw [hjoined, List.drop_eq_getElem_cons hlast, List.append_assoc, List.append_cancel_left_eq,
    List.append_cons front, List.append_cons written, List.append_cancel_right_eq] at hwritten
  have hline : opener ++ text.lines[last] = text.lines[last] :=
    List.singleton_inj.mp (List.append_inj_right' hwritten rfl)
  exact hopener (List.append_left_eq_self.mp hline)

include hfirst hlines in
/-- A range up to the end of the text leaves the lines before it alone. -/
theorem lines_formatText_of_le (hlast : text.lines.length ≤ last) :
    (formatText unit (some { first, last }) text).lines =
      text.lines.take (first - 1) ++
          (Layout.format unit (Text.unlines (linesIn text first last))).lines ++
        text.lines.drop last := by
  rw [formatText_range_of_le hfirst hlines hlast,
    Text.lines_ended_append (Text.newline_not_mem_take _ _), List.drop_eq_nil_of_le hlast,
    List.append_nil]

end

/-- Formatting a range of lines leaves the lines before and behind it alone, and puts the layout of
its own lines between them, exactly when the text ends with the range or the range ends in the
markup. -/
theorem lines_formatText_around_iff
    {unit : Text} (hunit : Text.IsIndent unit) (text : Text) {first last : ℕ}
    (hfirst : 1 ≤ first) (hle : first ≤ last) (hlines : first ≤ text.lines.length) :
    ((last < text.lines.length →
          Layout.EndsInMarkup (Text.unlines (linesIn text first last))) ↔
        ∃ written, (formatText unit (some { first, last }) text).lines =
          text.lines.take (first - 1) ++ written ++ text.lines.drop last) ∧
      ((last < text.lines.length →
          Layout.EndsInMarkup (Text.unlines (linesIn text first last))) →
        (formatText unit (some { first, last }) text).lines =
          text.lines.take (first - 1) ++
              (Layout.format unit (Text.unlines (linesIn text first last))).lines ++
            text.lines.drop last) := by
  have hkept : (last < text.lines.length →
        Layout.EndsInMarkup (Text.unlines (linesIn text first last))) →
      (formatText unit (some { first, last }) text).lines =
        text.lines.take (first - 1) ++
            (Layout.format unit (Text.unlines (linesIn text first last))).lines ++
          text.lines.drop last := by
    intro hends
    rcases Nat.lt_or_ge last text.lines.length with hlast | hlast
    · exact lines_formatText_of_markup hunit hfirst hle hlines hlast (hends hlast)
    · exact lines_formatText_of_le hfirst hlines hlast
  refine ⟨⟨fun hends => ⟨_, hkept hends⟩, ?_⟩, hkept⟩
  intro hexists hlast
  by_contra hends
  exact not_exists_lines_formatText_of_not_markup hunit hfirst hle hlines hlast hends hexists

/-- A page whose inner lines are to be formatted. -/
def listPage : Text :=
  Text.unlines (["  <div>", "<ul>", "<li>a</li>", " </ul>", "  </div>"].map String.toList)

theorem lines_formatText_listPage :
    Text.IsIndent Layout.tab ∧
      Layout.EndsInMarkup (Text.unlines (linesIn listPage 2 4)) ∧
      (formatText Layout.tab (some { first := 2, last := 4 }) listPage).lines =
        ["  <div>", "<ul>", "\t<li>a</li>", "</ul>", "  </div>"].map String.toList := by
  have hunit : Text.IsIndent Layout.tab := by decide
  have hends : Layout.EndsInMarkup (Text.unlines (linesIn listPage 2 4)) := by decide +kernel
  have hkept := (lines_formatText_around_iff hunit listPage (by decide : 1 ≤ 2)
    (by decide : 2 ≤ 4) (by decide)).2 fun _ => hends
  refine ⟨hunit, hends, ?_⟩
  rw [show (2 : Int) = ((2 : ℕ) : Int) from rfl, show (4 : Int) = ((4 : ℕ) : Int) from rfl, hkept]
  decide +kernel

/-- A page with a script, whose opening marker ends the range that is to be formatted. -/
def scriptPage : Text :=
  Text.unlines (["<div>", "<p>x</p>", "<script>", "let a = 1;", "</script>",
    "</div>"].map String.toList)

/-- The first line of the script is joined to its marker. -/
theorem not_exists_lines_formatText_scriptPage :
    Text.IsIndent Layout.tab ∧ 3 < scriptPage.lines.length ∧
      (formatText Layout.tab (some { first := 2, last := 3 }) scriptPage).lines =
        ["<div>", "<p>x</p>", "<script>let a = 1;", "</script>", "</div>"].map String.toList ∧
      ¬ ∃ written, (formatText Layout.tab (some { first := 2, last := 3 }) scriptPage).lines =
        scriptPage.lines.take 1 ++ written ++ scriptPage.lines.drop 3 := by
  have hunit : Text.IsIndent Layout.tab := by decide
  have hlast : 3 < scriptPage.lines.length := by decide
  have hends : ¬ Layout.EndsInMarkup (Text.unlines (linesIn scriptPage 2 3)) := by
    decide +kernel
  refine ⟨hunit, hlast, by decide +kernel, ?_⟩
  exact not_exists_lines_formatText_of_not_markup hunit (by decide : 1 ≤ 2) (by decide)
    (by decide) hlast hends

end Assist

end Reindent
