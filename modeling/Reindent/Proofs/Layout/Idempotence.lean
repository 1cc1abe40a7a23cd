import Reindent.Proofs.Layout.Flow

/-!
# Laying out a laid-out text

A second layout reads what the first one has written.  As long as no marker of one block is met
inside the other, the second run goes through the states of the first one with nothing held back:
it meets the body of a block only when the first run closes the block, and until then the two
states differ in the held lines alone.  So both write the same lines, whatever units of
indentation the two layouts use.
-/

namespace Reindent
namespace Layout

/-- The block a marker belongs to. -/
def Marker.block : Marker → Block
  | .opens block => block
  | .closes block => block

/-- From a state on, no marker of a block is met inside the other block. -/
def Unmixed : State → List Text → Prop
  | _, [] => True
  | st, line :: rest =>
    (∀ block, st.region = .inside block → ∀ marker ∈ marker? line, marker.block = block) ∧
      Unmixed (st.next line) rest

instance decidableUnmixed :
    (st : State) → (lines : List Text) → Decidable (Unmixed st lines)
  | _, [] => .isTrue trivial
  | st, line :: rest =>
    have := decidableUnmixed (st.next line) rest
    inferInstanceAs (Decidable ((∀ block, st.region = .inside block →
      ∀ marker ∈ marker? line, marker.block = block) ∧ Unmixed (st.next line) rest))

namespace State

/-- In a tidy state a marker met outside the other block finds nothing held for that block. -/
theorem Tidy.lines_eq_nil_of_ne
    {st : State} (hst : st.Tidy) {block other : Block}
    (hregion : ∀ inner, st.region = .inside inner → block = inner) (hne : other ≠ block) :
    (st.held other).lines = [] := by
  apply hst
  intro hinside
  exact hne (hregion other hinside).symm

/-- The state with nothing held back. -/
def cleared (st : State) : State :=
  { st with
    script := { st.script with lines := [] }
    style := { st.style with lines := [] } }

theorem region_cleared (st : State) :
    st.cleared.region = st.region := rfl

theorem cleared_enter (st : State) (block : Block) :
    (st.enter block).cleared = st.cleared.enter block := by
  cases block <;> rfl

theorem cleared_holdAll (st : State) (block : Block) (lines : List Text) :
    (st.holdAll block lines).cleared = st.cleared := by
  cases block <;> rfl

theorem cleared_leave (st : State) (block : Block) (lines : List Text) :
    (st.leave block).cleared = (st.cleared.holdAll block lines).leave block := by
  cases block <;> rfl

theorem held_cleared_holdAll (st : State) (block : Block) (lines : List Text) :
    (st.cleared.holdAll block lines).held block = { st.held block with lines := lines } := by
  cases block <;> rfl

theorem cleared_next_of_markup
    {st : State} {line : Text}
    (hmarker : marker? line = none) (hregion : st.region = .markup) :
    (st.next line).cleared = st.cleared.next line := by
  simp only [next, hmarker, region_cleared, hregion]
  split <;> rfl

theorem emitted_cleared_of_markup
    (unit : Text) {st : State} {line : Text}
    (hmarker : marker? line = none) (hregion : st.region = .markup) :
    st.cleared.emitted unit line = st.emitted unit line := by
  simp only [emitted, hmarker, region_cleared, hregion]
  rfl

theorem emitted_cleared_of_opens
    (unit : Text) {st : State} {line : Text} {block : Block}
    (hmarker : marker? line = some (.opens block)) :
    st.cleared.emitted unit line = st.emitted unit line := by
  simp only [emitted, hmarker]
  rfl

/-- Closing a block after its kept lines writes what closing it after all its lines writes. -/
theorem emitted_cleared_of_closes
    {unit : Text} (hunit : Text.IsIndent unit)
    {st : State} (hheld : st.WellHeld) {line : Text} {block : Block}
    (hmarker : marker? line = some (.closes block)) :
    (st.cleared.holdAll block (kept (st.held block).lines)).emitted unit line =
      st.emitted unit line := by
  have hbody := block.bodyLines_body_kept hunit ((st.held block).start + 1)
    fun l hl => (hheld block l hl).1
  simp only [emitted, hmarker, held_cleared_holdAll, hbody]

end State

/-- The body written at a closing marker is held back again by a run that starts cleared. -/
theorem run_cleared_kept_append
    (unit : Text) {st : State} (hst : st.Tidy) (hheld : st.WellHeld)
    (block : Block) (rest : List Text) :
    run unit st.cleared (kept (st.held block).lines ++ rest) =
      run unit (st.cleared.holdAll block (kept (st.held block).lines)) rest := by
  by_cases hinside : st.region = .inside block
  · rw [← State.region_cleared] at hinside
    exact run_append_of_inside unit hinside (hheld.marker?_of_mem_kept block) rest
  · rw [hst block hinside, kept_nil, List.nil_append, State.holdAll_nil]

/-- A second run over the flow of a first one writes what the first one writes. -/
theorem run_flow
    {unit : Text} (hunit : Text.IsIndent unit)
    {st : State} (hst : st.Tidy) (hheld : st.WellHeld)
    {lines : List Text} (hlines : ∀ line ∈ lines, line.IsTrimmed) (hmixed : Unmixed st lines) :
    run unit st.cleared (flow st lines) = run unit st lines := by
  induction lines generalizing st with
  | nil => rfl
  | cons line rest ih =>
      obtain ⟨htrimmed, hrest⟩ := List.forall_mem_cons.mp hlines
      obtain ⟨hline, hmixedNext⟩ := hmixed
      have hheldNext : (st.next line).WellHeld := hheld.next htrimmed
      -- In every case the cleared next state is where the second run stands after its part.
      cases st.turn line with
      | opens block hmarker =>
          have hregion : ∀ inner, st.region = .inside inner → block = inner := by
            intro inner hinner
            exact hline inner hinner _ hmarker
          have hnext : (st.next line).Tidy := by
            rw [State.next_of_opens hmarker]
            exact State.Tidy.enter fun other hne => hst.lines_eq_nil_of_ne hregion hne
          have hflow := ih hnext hheldNext hrest hmixedNext
          rw [State.next_of_opens hmarker] at hflow
          rw [flow_cons_of_opens hmarker, run, run, State.emitted_cleared_of_opens unit hmarker,
            State.next_of_opens hmarker, State.next_of_opens hmarker, ← State.cleared_enter, hflow]
      | closes block hmarker =>
          have hregion : ∀ inner, st.region = .inside inner → block = inner := by
            intro inner hinner
            exact hline inner hinner _ hmarker
          have hnext : (st.next line).Tidy := by
            rw [State.next_of_closes hmarker]
            exact State.Tidy.leave fun other hne => hst.lines_eq_nil_of_ne hregion hne
          have hflow := ih hnext hheldNext hrest hmixedNext
          rw [State.next_of_closes hmarker] at hflow
          rw [flow_cons_of_closes hmarker, run_cleared_kept_append unit hst hheld block, run, run,
            State.emitted_cleared_of_closes hunit hheld hmarker, State.next_of_closes hmarker,
            State.next_of_closes hmarker, ← State.cleared_leave, hflow]
      | held block hmarker hregion =>
          have hnext : (st.next line).Tidy := by
            rw [State.next_of_held hmarker hregion]
            exact hst.holdAll hregion [line]
          have hflow := ih hnext hheldNext hrest hmixedNext
          rw [State.next_of_held hmarker hregion, State.cleared_holdAll] at hflow
          rw [flow_cons_of_held hmarker hregion, hflow, run,
            State.emitted_of_held unit hmarker hregion, State.next_of_held hmarker hregion,
            List.nil_append]
      | markup hmarker hregion =>
          have hnext : (st.next line).Tidy := hst.next_of_markup hmarker hregion
          have hflow := ih hnext hheldNext hrest hmixedNext
          rw [flow_cons_of_markup hmarker hregion, run, run,
            State.emitted_cleared_of_markup unit hmarker hregion,
            ← State.cleared_next_of_markup hmarker hregion, hflow]

/-- If the first line of a text starts with no mark, a layout reads the flow of the text back. -/
theorem trimmedLines_format
    {unit text : Text} (hunit : Text.IsIndent unit)
    (hmark : ((trimmedLines text).headD []).head? ≠ some Text.byteOrderMark) :
    trimmedLines (format unit text) = flow {} (trimmedLines text) := by
  rw [← map_trim_lines_format hunit]
  cases hformat : format unit text with
  | nil => rfl
  | cons c cs =>
      by_cases hc : c = Text.byteOrderMark
      · exfalso
        apply hmark
        obtain ⟨first, rest, -, hlines⟩ := exists_first_line_of_mark cs
        obtain ⟨line, more, hcons⟩ := List.exists_cons_of_ne_nil (trimmedLines_ne_nil text)
        have hflow := map_trim_lines_format hunit text
        rw [hformat, hc, hlines, hcons, flow_initial_cons] at hflow
        rw [hcons, ← (List.cons.inj hflow).1]
        rfl
      · exact trimmedLines_cons_of_ne_mark hc cs

/-- Laying out a laid-out text, with the same unit or another one, gives what laying out the text
itself gives. -/
theorem format_format
    {unit unit' text : Text} (hunit : Text.IsIndent unit) (hunit' : Text.IsIndent unit')
    (hmixed : Unmixed {} (trimmedLines text))
    (hmark : ((trimmedLines text).headD []).head? ≠ some Text.byteOrderMark) :
    format unit' (format unit text) = format unit' text := by
  have hrun := run_flow hunit' State.tidy_initial State.wellHeld_initial
    (fun _ hline => isTrimmed_of_mem_trimmedLines hline) hmixed
  rw [format, trimmedLines_format hunit hmark]
  exact congrArg Text.unlines hrun

/-- A stray closing marker, a script opened twice and a style sheet that is never closed. -/
def reopened : Text :=
  Text.unlines (["\uFEFF</style>", "<p>", "<script>", "lost", "<script>", "", "  f(", "</script>",
    "]", "<style>", "lost"].map String.toList)

theorem format_format_reopened :
    Text.IsIndent tab ∧ Text.IsIndent [' ', ' '] ∧ Unmixed {} (trimmedLines reopened) ∧
      ((trimmedLines reopened).headD []).head? ≠ some Text.byteOrderMark ∧
      format [' ', ' '] (format tab reopened) =
        Text.unlines (["</style>", "<p>", "  <script>", "    <script>", "      f(",
          "    </script>", "    ]", "    <style>"].map String.toList) := by
  have hunit : Text.IsIndent tab := by decide
  have hunit' : Text.IsIndent [' ', ' '] := by decide
  have hmixed : Unmixed {} (trimmedLines reopened) := by decide
  have hmark : ((trimmedLines reopened).headD []).head? ≠ some Text.byteOrderMark := by decide
  refine ⟨hunit, hunit', hmixed, hmark, ?_⟩
  rw [format_format hunit hunit' hmixed hmark]
  decide +kernel

end Layout
end Reindent
