import Reindent.Proofs.Layout.Body
import Reindent.Proofs.Layout.State

/-!
# The flow of lines through a layout

The lines of a document leave the layout in another order than they come in, and some of them do
not leave it at all.  `flow` says which lines leave it and in which order, without their
indentation, and `run` writes exactly these lines.  So the theory of the lines does not depend on
levels and units, and the trimmed lines of a laid-out text are the flow of its own trimmed lines.
-/

namespace Reindent
namespace Layout

namespace State

/-- The lines that leave the layout when a line comes in. -/
def passed (st : State) (line : Text) : List Text :=
  match marker? line with
  | some (.opens _) => [line]
  | some (.closes block) => kept (st.held block).lines ++ [line]
  | none =>
    match st.region with
    | .inside _ => []
    | .markup => [line]

theorem passed_of_opens
    {st : State} {line : Text} {block : Block}
    (hmarker : marker? line = some (.opens block)) :
    st.passed line = [line] := by
  simp [passed, hmarker]

theorem passed_of_closes
    {st : State} {line : Text} {block : Block}
    (hmarker : marker? line = some (.closes block)) :
    st.passed line = kept (st.held block).lines ++ [line] := by
  simp [passed, hmarker]

theorem passed_of_held
    {st : State} {line : Text} {block : Block}
    (hmarker : marker? line = none) (hregion : st.region = .inside block) :
    st.passed line = [] := by
  simp [passed, hmarker, hregion]

theorem passed_of_markup
    {st : State} {line : Text}
    (hmarker : marker? line = none) (hregion : st.region = .markup) :
    st.passed line = [line] := by
  simp [passed, hmarker, hregion]

/-- The first line of a document leaves at once. -/
theorem passed_initial (line : Text) :
    ({} : State).passed line = [line] := by
  cases ({} : State).turn line with
  | opens block hmarker => exact passed_of_opens hmarker
  | closes block hmarker =>
      rw [passed_of_closes hmarker]
      cases block <;> rfl
  | held block hmarker hregion => cases hregion
  | markup hmarker hregion => exact passed_of_markup hmarker hregion

theorem emitted_of_held
    (unit : Text) {st : State} {line : Text} {block : Block}
    (hmarker : marker? line = none) (hregion : st.region = .inside block) :
    st.emitted unit line = [] := by
  simp [emitted, hmarker, hregion]

theorem WellHeld.marker?_of_mem_kept
    {st : State} (hst : st.WellHeld) (block : Block) :
    ∀ line ∈ kept (st.held block).lines, marker? line = none := by
  intro line hline
  exact (hst block line ((kept_sublist _).subset hline)).2

theorem forall₂_writes_emitted
    {unit : Text} (hunit : Text.IsIndent unit)
    {st : State} (hst : st.WellHeld) {line : Text} (hline : line.IsTrimmed) :
    List.Forall₂ Writes (st.passed line) (st.emitted unit line) := by
  cases st.turn line with
  | opens block hmarker =>
      rw [passed_of_opens hmarker]
      simp only [emitted, hmarker]
      exact .cons (writes_indented hunit hline (ne_nil_of_marker hmarker) _) .nil
  | closes block hmarker =>
      rw [passed_of_closes hmarker]
      simp only [emitted, hmarker]
      have hbody := block.forall₂_writes_bodyLines hunit ((st.held block).start + 1)
        fun l hl => (hst block l hl).1
      have hclose := writes_indented hunit hline (ne_nil_of_marker hmarker) (st.held block).start
      exact List.rel_append hbody (.cons hclose .nil)
  | held block hmarker hregion =>
      rw [passed_of_held hmarker hregion, emitted_of_held unit hmarker hregion]
      exact .nil
  | markup hmarker hregion =>
      rw [passed_of_markup hmarker hregion]
      simp only [emitted, hmarker, hregion]
      split
      · next hnil =>
        subst hnil
        exact .cons writes_nil .nil
      · next hne => exact .cons (writes_indented hunit hline hne _) .nil

end State

/-! ## Collecting along a run -/

/-- What the lines give one after the other, from a state on. -/
def collect (out : State → Text → List Text) : State → List Text → List Text
  | _, [] => []
  | st, line :: rest => out st line ++ collect out (st.next line) rest

theorem run_eq_collect
    (unit : Text) (st : State) (lines : List Text) :
    run unit st lines = collect (State.emitted unit) st lines := by
  induction lines generalizing st with
  | nil => rfl
  | cons line rest ih => rw [run, collect, ih]

theorem collect_append
    (out : State → Text → List Text) (st : State) (lines more : List Text) :
    collect out st (lines ++ more) = collect out st lines ++ collect out (st.after lines) more := by
  induction lines generalizing st with
  | nil => rfl
  | cons line rest ih =>
      rw [List.cons_append, collect, collect, ih, State.after_cons, List.append_assoc]

theorem run_append (unit : Text) (st : State) (lines more : List Text) :
    run unit st (lines ++ more) = run unit st lines ++ run unit (st.after lines) more := by
  rw [run_eq_collect, run_eq_collect, run_eq_collect, collect_append]

/-- The body of a block gives nothing as long as the block is open. -/
theorem collect_append_of_inside
    {out : State → Text → List Text} {st : State} {block : Block}
    (hout : ∀ (st : State) (line : Text), marker? line = none →
      st.region = .inside block → out st line = [])
    (hregion : st.region = .inside block)
    {body : List Text} (hbody : ∀ line ∈ body, marker? line = none) (rest : List Text) :
    collect out st (body ++ rest) = collect out (st.holdAll block body) rest := by
  rw [collect_append, State.after_of_inside hregion hbody]
  suffices hnone : collect out st body = [] by
    rw [hnone, List.nil_append]
  induction body generalizing st with
  | nil => rfl
  | cons line body ih =>
      obtain ⟨hline, hrest⟩ := List.forall_mem_cons.mp hbody
      have hnext : (st.next line).region = .inside block := by
        rw [State.next_of_held hline hregion, State.region_holdAll, hregion]
      rw [collect, hout st line hline hregion, List.nil_append]
      exact ih hnext hrest

theorem run_append_of_inside
    (unit : Text) {st : State} {block : Block} (hregion : st.region = .inside block)
    {body : List Text} (hbody : ∀ line ∈ body, marker? line = none) (rest : List Text) :
    run unit st (body ++ rest) = run unit (st.holdAll block body) rest := by
  rw [run_eq_collect, run_eq_collect]
  exact collect_append_of_inside
    (fun _ _ hmarker hinside => State.emitted_of_held unit hmarker hinside) hregion hbody rest

/-- The lines that leave the layout, from a state on. -/
def flow (st : State) (lines : List Text) : List Text :=
  collect State.passed st lines

theorem flow_nil (st : State) :
    flow st [] = [] := rfl

theorem flow_cons (st : State) (line : Text) (rest : List Text) :
    flow st (line :: rest) = st.passed line ++ flow (st.next line) rest := rfl

theorem flow_cons_of_opens
    {st : State} {line : Text} {block : Block}
    (hmarker : marker? line = some (.opens block)) (rest : List Text) :
    flow st (line :: rest) = line :: flow (st.enter block) rest := by
  rw [flow_cons, State.passed_of_opens hmarker, State.next_of_opens hmarker,
    List.singleton_append]

theorem flow_cons_of_closes
    {st : State} {line : Text} {block : Block}
    (hmarker : marker? line = some (.closes block)) (rest : List Text) :
    flow st (line :: rest) =
      kept (st.held block).lines ++ line :: flow (st.leave block) rest := by
  rw [flow_cons, State.passed_of_closes hmarker, State.next_of_closes hmarker, List.append_assoc,
    List.singleton_append]

theorem flow_cons_of_held
    {st : State} {line : Text} {block : Block}
    (hmarker : marker? line = none) (hregion : st.region = .inside block) (rest : List Text) :
    flow st (line :: rest) = flow (st.holdAll block [line]) rest := by
  rw [flow_cons, State.passed_of_held hmarker hregion, State.next_of_held hmarker hregion,
    List.nil_append]

theorem flow_cons_of_markup
    {st : State} {line : Text}
    (hmarker : marker? line = none) (hregion : st.region = .markup) (rest : List Text) :
    flow st (line :: rest) = line :: flow (st.next line) rest := by
  rw [flow_cons, State.passed_of_markup hmarker hregion, List.singleton_append]

theorem flow_append_of_inside
    {st : State} {block : Block} (hregion : st.region = .inside block)
    {body : List Text} (hbody : ∀ line ∈ body, marker? line = none) (rest : List Text) :
    flow st (body ++ rest) = flow (st.holdAll block body) rest :=
  collect_append_of_inside (fun _ _ hmarker hinside => State.passed_of_held hmarker hinside)
    hregion hbody rest

/-- A run writes the lines of the flow, each in one of its written forms. -/
theorem forall₂_writes_run
    {unit : Text} (hunit : Text.IsIndent unit)
    {st : State} (hst : st.WellHeld) {lines : List Text}
    (hlines : ∀ line ∈ lines, line.IsTrimmed) :
    List.Forall₂ Writes (flow st lines) (run unit st lines) := by
  induction lines generalizing st with
  | nil => exact .nil
  | cons line rest ih =>
      obtain ⟨hline, hrest⟩ := List.forall_mem_cons.mp hlines
      exact List.rel_append (State.forall₂_writes_emitted hunit hst hline)
        (ih (hst.next hline) hrest)

/-! ## The lines of a laid-out text -/

theorem isTrimmed_of_mem_trimmedLines
    {line text : Text} (hline : line ∈ trimmedLines text) :
    line.IsTrimmed := by
  obtain ⟨l, hl, rfl⟩ := List.mem_map.mp hline
  exact Text.isTrimmed_trim_of_mem_lines hl

theorem trimmedLines_ne_nil (text : Text) :
    trimmedLines text ≠ [] := by
  rw [trimmedLines, ne_eq, List.map_eq_nil_iff]
  exact Text.lines_ne_nil _

/-- The flow of a document starts with its first line. -/
theorem flow_initial_cons (line : Text) (rest : List Text) :
    flow {} (line :: rest) = line :: flow (({} : State).next line) rest := by
  rw [flow_cons, State.passed_initial, List.singleton_append]

theorem forall₂_writes_format
    {unit : Text} (hunit : Text.IsIndent unit) (text : Text) :
    List.Forall₂ Writes (flow {} (trimmedLines text)) (run unit {} (trimmedLines text)) :=
  forall₂_writes_run hunit State.wellHeld_initial
    fun _ hline => isTrimmed_of_mem_trimmedLines hline

theorem lines_format
    {unit : Text} (hunit : Text.IsIndent unit) (text : Text) :
    (format unit text).lines = run unit {} (trimmedLines text) := by
  have hwrites := forall₂_writes_format hunit text
  obtain ⟨first, rest, hcons⟩ := List.exists_cons_of_ne_nil (trimmedLines_ne_nil text)
  have hne : run unit {} (trimmedLines text) ≠ [] := by
    intro hnil
    rw [hnil, List.forall₂_nil_right_iff, hcons, flow_initial_cons] at hwrites
    cases hwrites
  exact Text.lines_unlines hne (newline_not_mem_of_forall₂_writes hwrites)

/-- The trimmed lines of a laid-out text are the flow of the trimmed lines of the text. -/
theorem map_trim_lines_format
    {unit : Text} (hunit : Text.IsIndent unit) (text : Text) :
    (format unit text).lines.map Text.trim = flow {} (trimmedLines text) := by
  rw [lines_format hunit]
  exact map_trim_eq_of_forall₂_writes (forall₂_writes_format hunit text)

/-- A leading mark is trimmed as part of the first line, unless it is dropped before. -/
theorem exists_first_line_of_mark (cs : Text) :
    ∃ first rest, trimmedLines (Text.byteOrderMark :: cs) = Text.trim first :: rest ∧
      (Text.lines (Text.byteOrderMark :: cs)).map Text.trim =
        (Text.byteOrderMark :: Text.trimEnd first) :: rest := by
  obtain ⟨first, rest, hcons⟩ := List.exists_cons_of_ne_nil (Text.lines_ne_nil cs)
  refine ⟨first, rest.map Text.trim, ?_, ?_⟩
  · rw [trimmedLines, Text.dropMark, if_pos rfl, hcons, List.map_cons]
  · rw [Text.lines_cons_of_ne (by decide) hcons, List.map_cons,
      Text.trim_cons_of_not_blank (by decide)]

theorem trimmedLines_cons_of_ne_mark
    {c : Char} (hc : c ≠ Text.byteOrderMark) (cs : Text) :
    trimmedLines (c :: cs) = (Text.lines (c :: cs)).map Text.trim := by
  rw [trimmedLines, Text.dropMark, if_neg hc]

end Layout
end Reindent
