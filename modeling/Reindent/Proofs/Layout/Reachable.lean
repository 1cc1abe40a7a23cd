import Reindent.Proofs.Layout.Flow

/-!
# The states that a layout reaches

Markers may come in any order: a block can be opened inside another one or inside itself, and closed
where none is open.  Still every state that trimmed lines lead to is sound: inside a block the level
is one above that of the marker which opened it, and only trimmed lines that are no markers wait in
a block.  `State.Step` collects what one line can change.  Both are proved by the four turns of a
line, and what a whole run keeps follows by induction along its lines.
-/

namespace Reindent
namespace Layout

/-- The lines that open or close a block. -/
def markerLines : List Text :=
  ["<script>", "</script>", "<style>", "</style>"].map String.toList

theorem marker?_eq_none_iff (line : Text) :
    marker? line = none ↔ line ∉ markerLines := by
  simp only [marker?, markerLines, List.map_cons, List.map_nil, List.mem_cons, List.not_mem_nil,
    or_false, not_or]
  constructor
  · intro h
    split at h
    · cases h
    next hscript =>
    split at h
    · cases h
    next hscriptEnd =>
    split at h
    · cases h
    next hstyle =>
    split at h
    · cases h
    next hstyleEnd => exact ⟨hscript, hscriptEnd, hstyle, hstyleEnd⟩
  · rintro ⟨hscript, hscriptEnd, hstyle, hstyleEnd⟩
    rw [if_neg hscript, if_neg hscriptEnd, if_neg hstyle, if_neg hstyleEnd]

namespace State

/-! ## Levels in integers -/

/-- By how much a markup line asks to be moved before it is written, and by how much the level is to
move after it. -/
def asked (st : State) (line : Text) : Int × Int :=
  match Line.kind st.tagSeen line with
  | .statement =>
    (if Line.startsWithAny Line.closers line then -1 else 0, Line.levelChange line)
  | .closingTag => (-1, 0)
  | .openingTag => (0, 1)
  | .other => (if Line.closesGroup line then -1 else 0, if Line.opensGroup line then 1 else 0)
  | .inlineElement | .selfClosing => (0, 0)

theorem dedent_eq_toNat (level : ℕ) :
    dedent level = ((level : Int) + -1).toNat := by
  rw [dedent]
  omega

/-- A line stands at the level that it asks for, or at zero. -/
theorem placement_eq_toNat (st : State) (line : Text) :
    st.placement line = (st.level + (st.asked line).1).toNat := by
  cases hkind : Line.kind st.tagSeen line with
  | statement =>
      simp only [placement, asked, hkind]
      split
      · exact dedent_eq_toNat st.level
      · simp
  | closingTag =>
      simp only [placement, asked, hkind]
      exact dedent_eq_toNat st.level
  | other =>
      simp only [placement, asked, hkind]
      split
      · exact dedent_eq_toNat st.level
      · simp
  | inlineElement => simp [placement, asked, hkind]
  | selfClosing => simp [placement, asked, hkind]
  | openingTag => simp [placement, asked, hkind]

/-- The level after a line is the one that the line asks for, or zero. -/
theorem levelAfter_eq_toNat (st : State) (line : Text) :
    st.levelAfter line = (st.placement line + (st.asked line).2).toNat := by
  cases hkind : Line.kind st.tagSeen line with
  | statement =>
      simp only [levelAfter, asked, hkind]
      rfl
  | openingTag =>
      simp only [levelAfter, asked, hkind]
      omega
  | other =>
      simp only [levelAfter, asked, hkind]
      split <;> omega
  | closingTag => simp [levelAfter, asked, hkind]
  | inlineElement => simp [levelAfter, asked, hkind]
  | selfClosing => simp [levelAfter, asked, hkind]

/-! ## Sound states -/

/-- What holds of every state that trimmed lines lead to. -/
structure Sound (st : State) : Prop where
  level_nonneg : 0 ≤ (st.level : Int)
  start_nonneg : ∀ block, 0 ≤ ((st.held block).start : Int)
  level_of_inside : ∀ block, st.region = .inside block → st.level = (st.held block).start + 1
  trim_of_mem : ∀ block, ∀ line ∈ (st.held block).lines, Text.trim line = line
  not_marker_of_mem : ∀ block, ∀ line ∈ (st.held block).lines, line ∉ markerLines

theorem sound_initial : ({} : State).Sound where
  level_nonneg := Int.le_refl 0
  start_nonneg block := by cases block <;> exact Int.le_refl 0
  level_of_inside block hregion := by cases hregion
  trim_of_mem block line hline := by cases block <;> simp [held] at hline
  not_marker_of_mem block line hline := by cases block <;> simp [held] at hline

/-- A state is sound when its level fits its region and each line held back either waited before or
is a trimmed line that is no marker. -/
theorem Sound.of_lines
    {st later : State} (hst : st.Sound) {line : Text} (hline : Text.trim line = line)
    (hlevel : ∀ block, later.region = .inside block → later.level = (later.held block).start + 1)
    (hlines : ∀ block, ∀ l ∈ (later.held block).lines,
      l ∈ (st.held block).lines ∨ l = line ∧ line ∉ markerLines) :
    later.Sound where
  level_nonneg := Int.natCast_nonneg _
  start_nonneg _ := Int.natCast_nonneg _
  level_of_inside := hlevel
  trim_of_mem block l hl := by
    rcases hlines block l hl with hold | ⟨rfl, -⟩
    · exact hst.trim_of_mem block l hold
    · exact hline
  not_marker_of_mem block l hl := by
    rcases hlines block l hl with hold | ⟨rfl, hmarker⟩
    · exact hst.not_marker_of_mem block l hold
    · exact hmarker

theorem level_holdAll (st : State) (block : Block) (lines : List Text) :
    (st.holdAll block lines).level = st.level := by
  cases block <;> rfl

theorem tagSeen_holdAll (st : State) (block : Block) (lines : List Text) :
    (st.holdAll block lines).tagSeen = st.tagSeen := by
  cases block <;> rfl

theorem level_enter (st : State) (block : Block) :
    (st.enter block).level = st.level + 1 := by
  cases block <;> rfl

theorem tagSeen_enter (st : State) (block : Block) :
    (st.enter block).tagSeen = st.tagSeen := by
  cases block <;> rfl

theorem tagSeen_leave (st : State) (block : Block) :
    (st.leave block).tagSeen = st.tagSeen := by
  cases block <;> rfl

/-- Every line leads from a sound state to a sound state. -/
theorem Sound.next
    {st : State} (hst : st.Sound) {line : Text} (hline : Text.trim line = line) :
    (st.next line).Sound := by
  cases st.turn line with
  | opens block hmarker =>
      rw [next_of_opens hmarker]
      refine hst.of_lines hline ?_ ?_
      · intro other hregion
        rw [region_enter] at hregion
        cases hregion
        rw [level_enter, held_enter, if_pos rfl]
      · intro other l hl
        rw [held_enter] at hl
        split at hl
        · cases hl
        · exact Or.inl hl
  | closes block hmarker =>
      rw [next_of_closes hmarker]
      refine hst.of_lines hline ?_ ?_
      · intro other hregion
        rw [region_leave] at hregion
        cases hregion
      · intro other l hl
        rw [held_leave] at hl
        split at hl
        · cases hl
        · exact Or.inl hl
  | held block hmarker hregion =>
      rw [next_of_held hmarker hregion]
      refine hst.of_lines hline ?_ ?_
      · intro other hinside
        rw [region_holdAll, hregion] at hinside
        cases hinside
        rw [level_holdAll, held_holdAll, if_pos rfl]
        exact hst.level_of_inside block hregion
      · intro other l hl
        rw [held_holdAll] at hl
        split at hl
        · next heq =>
          subst heq
          rcases List.mem_append.mp hl with hl | hl
          · exact Or.inl hl
          · exact Or.inr ⟨List.mem_singleton.mp hl, (marker?_eq_none_iff line).mp hmarker⟩
        · exact Or.inl hl
  | markup hmarker hregion =>
      refine hst.of_lines hline ?_ ?_
      · intro other hinside
        rw [region_next_of_markup hmarker hregion] at hinside
        cases hinside
      · intro other l hl
        rw [held_next_of_markup hmarker hregion] at hl
        exact Or.inl hl

theorem Sound.after
    {st : State} (hst : st.Sound) {lines : List Text}
    (hlines : ∀ line ∈ lines, Text.trim line = line) :
    (st.after lines).Sound := by
  induction lines generalizing st with
  | nil => exact hst
  | cons line rest ih =>
      obtain ⟨hline, hrest⟩ := List.forall_mem_cons.mp hlines
      exact ih (hst.next hline) hrest

/-! ## What one line can change -/

/-- What a line can do to a state.  Only markers move between the regions and set the levels that
the blocks return to, and only other lines of the markup can be the first tag-like line. -/
structure Step (st : State) (line : Text) (later : State) : Prop where
  tagSeen_of_tagSeen : st.tagSeen = true → later.tagSeen = true
  tagSeen_of_inside : ∀ block, st.region = .inside block → later.tagSeen = st.tagSeen
  tagSeen_of_marker : line ∈ markerLines → later.tagSeen = st.tagSeen
  region_of_plain : line ∉ markerLines → later.region = st.region
  start_of_plain : line ∉ markerLines → ∀ block, (later.held block).start = (st.held block).start
  level_of_markup : st.region = .markup → line ∉ markerLines → line ≠ [] →
    later.level = ((st.level + (st.asked line).1).toNat + (st.asked line).2).toNat

theorem mem_markerLines_of_marker
    {line : Text} {marker : Marker} (hmarker : marker? line = some marker) :
    line ∈ markerLines := by
  by_contra hplain
  rw [(marker?_eq_none_iff line).mpr hplain] at hmarker
  cases hmarker

/-- A marker keeps what is known about tags; nothing else is asked of it. -/
theorem step_of_marker
    {st later : State} {line : Text} {marker : Marker} (hmarker : marker? line = some marker)
    (htag : later.tagSeen = st.tagSeen) :
    st.Step line later := by
  have hmem := mem_markerLines_of_marker hmarker
  exact ⟨fun hseen => htag.trans hseen, fun _ _ => htag, fun _ => htag,
    fun hplain => absurd hmem hplain, fun hplain => absurd hmem hplain,
    fun _ hplain => absurd hmem hplain⟩

theorem step_next (st : State) (line : Text) :
    st.Step line (st.next line) := by
  cases st.turn line with
  | opens block hmarker =>
      rw [next_of_opens hmarker]
      exact step_of_marker hmarker (st.tagSeen_enter block)
  | closes block hmarker =>
      rw [next_of_closes hmarker]
      exact step_of_marker hmarker (st.tagSeen_leave block)
  | held block hmarker hregion =>
      have htag := st.tagSeen_holdAll block [line]
      rw [next_of_held hmarker hregion]
      refine ⟨fun hseen => htag.trans hseen, fun _ _ => htag, fun _ => htag,
        fun _ => region_holdAll .., fun _ other => ?_, fun hmarkup => ?_⟩
      · rw [held_holdAll]
        split
        · next heq => rw [heq]
        · rfl
      · rw [hregion] at hmarkup
        cases hmarkup
  | markup hmarker hregion =>
      have hplain := (marker?_eq_none_iff line).mp hmarker
      have hseen : st.tagSeen = true → (st.next line).tagSeen = true := by
        intro hseen
        simp only [next, hmarker, hregion]
        split
        · exact hseen
        · rw [hseen, Bool.true_or]
      refine ⟨hseen, fun block hinside => ?_, fun hmem => absurd hmem hplain,
        fun _ => (region_next_of_markup hmarker hregion).trans hregion.symm,
        fun _ block => by rw [held_next_of_markup hmarker hregion], fun _ _ hne => ?_⟩
      · rw [hregion] at hinside
        cases hinside
      · simp only [next, hmarker, hregion, if_neg hne]
        rw [levelAfter_eq_toNat, placement_eq_toNat]

theorem tagSeen_after
    {st : State} (hseen : st.tagSeen = true) (lines : List Text) :
    (st.after lines).tagSeen = true := by
  induction lines generalizing st with
  | nil => exact hseen
  | cons line rest ih => exact ih ((st.step_next line).tagSeen_of_tagSeen hseen)

end State

/-! ## Whole runs -/

theorem run_concat (unit : Text) (st : State) (lines : List Text) (line : Text) :
    run unit st (lines ++ [line]) = run unit st lines ++ (st.after lines).emitted unit line := by
  rw [run_append, run, run, List.append_nil]

/-- Every state on the way along trimmed lines is sound, a tag once met stays met, and what has been
written stays as it is: the lines written for a front of the document are the front of those written
for all of it.  Each line takes one step and adds its own lines at the end. -/
theorem run_states_sound
    (unit : Text) {lines : List Text} (hlines : ∀ line ∈ lines, Text.trim line = line) :
    (∀ before, before <+: lines →
      (({} : State).after before).Sound ∧
        ((({} : State).after before).tagSeen = true → (({} : State).after lines).tagSeen = true) ∧
        run unit {} before <+: run unit {} lines) ∧
      ∀ before line, before ++ [line] <+: lines →
        (({} : State).after before).Step line (({} : State).after (before ++ [line])) ∧
          run unit {} (before ++ [line]) =
            run unit {} before ++ (({} : State).after before).emitted unit line := by
  constructor
  · rintro before ⟨rest, rfl⟩
    refine ⟨State.sound_initial.after fun line hline =>
      hlines line (List.mem_append_left rest hline), fun hseen => ?_, ?_⟩
    · rw [State.after_append]
      exact State.tagSeen_after hseen rest
    · rw [run_append]
      exact List.prefix_append _ _
  · intro before line _
    rw [State.after_append]
    exact ⟨State.step_next _ line, run_concat unit {} before line⟩

/-- A style block opened inside a script, where the script is closed first. -/
def crossedBlocks : List Text :=
  ["<div>", "<script>", "f(\x7b", "<style>", "p \x7b", "</script>", "</p>"].map String.toList

theorem run_states_sound_crossedBlocks :
    (∀ line ∈ crossedBlocks, Text.trim line = line) ∧
      (({} : State).after (crossedBlocks.take 5)).Sound ∧
      (({} : State).after (crossedBlocks.take 5)).region = .inside .style ∧
      (({} : State).after (crossedBlocks.take 5)).level = 3 ∧
      (({} : State).after (crossedBlocks.take 5)).Step "</script>".toList
        (({} : State).after (crossedBlocks.take 6)) ∧
      (({} : State).after (crossedBlocks.take 6)).Sound ∧
      (({} : State).after (crossedBlocks.take 6)).level = 1 ∧
      run tab {} (crossedBlocks.take 5) <+: run tab {} crossedBlocks := by
  have hlines : ∀ line ∈ crossedBlocks, Text.trim line = line := by decide
  obtain ⟨hfronts, hsteps⟩ := run_states_sound tab hlines
  obtain ⟨hinside, -, hwritten⟩ := hfronts _ (List.take_prefix 5 crossedBlocks)
  obtain ⟨hclosed, -⟩ := hfronts _ (List.take_prefix 6 crossedBlocks)
  obtain ⟨hstep, -⟩ := hsteps (crossedBlocks.take 5) "</script>".toList ⟨["</p>".toList], rfl⟩
  exact ⟨hlines, hinside, rfl, rfl, hstep, hclosed, rfl, hwritten⟩

end Layout
end Reindent
