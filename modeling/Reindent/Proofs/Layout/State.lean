import Reindent.Layout.Basic
import Reindent.Proofs.Text.Lines

/-!
# States of a layout

A line takes one of four turns, named by `State.Turn`: it opens or closes a block, it is held back,
or it is written in the markup.  Every fact about a step is proved by these four cases.

What is always true of the lines held back is collected in `State.WellHeld`.  `State.Tidy` is the
stronger condition under which a block never waits outside its own region; closed and unmixed
blocks keep it.
-/

namespace Reindent
namespace Layout

theorem marker?_nil : marker? [] = none := by
  decide

theorem ne_nil_of_marker
    {line : Text} {marker : Marker} (hmarker : marker? line = some marker) :
    line ≠ [] := by
  rintro rfl
  rw [marker?_nil] at hmarker
  cases hmarker

instance decidableForallBlock
    {p : Block → Prop} [DecidablePred p] : Decidable (∀ block, p block) :=
  decidable_of_iff (p .script ∧ p .style)
    ⟨fun h block => by cases block; exacts [h.1, h.2], fun h => ⟨h .script, h .style⟩⟩

/-- The other kind of block. -/
def Block.other : Block → Block
  | .script => .style
  | .style => .script

theorem Block.other_ne (block : Block) :
    block.other ≠ block := by
  cases block <;> simp [Block.other]

theorem Block.eq_other_of_ne
    {block block' : Block} (hne : block' ≠ block) :
    block' = block.other := by
  cases block <;> cases block' <;> simp_all [Block.other]

namespace State

/-! ## What is held after a step -/

@[simp] theorem held_enter
    (st : State) (block other : Block) :
    (st.enter block).held other =
      if other = block then { lines := [], start := st.level } else st.held other := by
  cases block <;> cases other <;> rfl

@[simp] theorem held_leave
    (st : State) (block other : Block) :
    (st.leave block).held other =
      if other = block then { st.held block with lines := [] } else st.held other := by
  cases block <;> cases other <;> rfl

@[simp] theorem region_enter
    (st : State) (block : Block) :
    (st.enter block).region = .inside block := by
  cases block <;> rfl

@[simp] theorem region_leave
    (st : State) (block : Block) :
    (st.leave block).region = .markup := by
  cases block <;> rfl

/-- The state with several lines added to what is held back for a block. -/
def holdAll (st : State) (block : Block) (lines : List Text) : State :=
  st.withHeld block { st.held block with lines := (st.held block).lines ++ lines }

@[simp] theorem held_holdAll
    (st : State) (block other : Block) (lines : List Text) :
    (st.holdAll block lines).held other =
      if other = block then { st.held block with lines := (st.held block).lines ++ lines }
      else st.held other := by
  cases block <;> cases other <;> rfl

@[simp] theorem region_holdAll
    (st : State) (block : Block) (lines : List Text) :
    (st.holdAll block lines).region = st.region := by
  cases block <;> rfl

theorem hold_eq_holdAll
    (st : State) (block : Block) (line : Text) :
    st.hold block line = st.holdAll block [line] := rfl

theorem holdAll_nil
    (st : State) (block : Block) :
    st.holdAll block [] = st := by
  cases block <;> simp [holdAll, withHeld, held]

theorem holdAll_holdAll
    (st : State) (block : Block) (lines more : List Text) :
    (st.holdAll block lines).holdAll block more = st.holdAll block (lines ++ more) := by
  cases block <;> simp [holdAll, withHeld, held]

/-- All lines held back. -/
def pending (st : State) : List Text :=
  (st.held .script).lines ++ (st.held .style).lines

theorem pending_perm (st : State) (block : Block) :
    st.pending.Perm ((st.held block).lines ++ (st.held block.other).lines) := by
  cases block with
  | script => exact List.Perm.refl _
  | style => exact List.perm_append_comm

theorem pending_eq_of_other_nil
    {st : State} {block : Block} (hother : (st.held block.other).lines = []) :
    st.pending = (st.held block).lines := by
  cases block with
  | script => rw [pending, show (st.held .style).lines = [] from hother, List.append_nil]
  | style => rw [pending, show (st.held .script).lines = [] from hother, List.nil_append]

theorem lines_eq_nil_of_pending
    {st : State} (hpending : st.pending = []) (block : Block) :
    (st.held block).lines = [] := by
  have hperm := st.pending_perm block
  rw [hpending, List.nil_perm, List.append_eq_nil_iff] at hperm
  exact hperm.1

theorem pending_enter (st : State) (block : Block) :
    (st.enter block).pending = (st.held block.other).lines := by
  cases block with
  | script => rfl
  | style => exact List.append_nil _

theorem pending_leave (st : State) (block : Block) :
    (st.leave block).pending = (st.held block.other).lines := by
  cases block with
  | script => rfl
  | style => exact List.append_nil _

theorem pending_holdAll_perm (st : State) (block : Block) (lines : List Text) :
    (st.holdAll block lines).pending.Perm (st.pending ++ lines) := by
  have hheld : (st.holdAll block lines).pending.Perm
      ((st.held block).lines ++ lines ++ (st.held block.other).lines) := by
    simpa [block.other_ne] using (st.holdAll block lines).pending_perm block
  refine hheld.trans ?_
  rw [List.append_assoc]
  refine (List.perm_append_comm.append_left _).trans ?_
  rw [← List.append_assoc]
  exact (st.pending_perm block).symm.append_right lines

/-! ## The four turns of a line -/

/-- What becomes of a line: it opens or closes a block, it is held back, or it is written in the
markup. -/
inductive Turn (st : State) (line : Text) : Prop
  | opens (block : Block) (hmarker : marker? line = some (.opens block))
  | closes (block : Block) (hmarker : marker? line = some (.closes block))
  | held (block : Block) (hmarker : marker? line = none) (hregion : st.region = .inside block)
  | markup (hmarker : marker? line = none) (hregion : st.region = .markup)

theorem turn (st : State) (line : Text) : st.Turn line := by
  cases hmarker : marker? line with
  | some marker =>
      cases marker with
      | opens block => exact .opens block hmarker
      | closes block => exact .closes block hmarker
  | none =>
      cases hregion : st.region with
      | inside block => exact .held block hmarker hregion
      | markup => exact .markup hmarker hregion

theorem next_of_opens
    {st : State} {line : Text} {block : Block}
    (hmarker : marker? line = some (.opens block)) :
    st.next line = st.enter block := by
  simp [next, hmarker]

theorem next_of_closes
    {st : State} {line : Text} {block : Block}
    (hmarker : marker? line = some (.closes block)) :
    st.next line = st.leave block := by
  simp [next, hmarker]

theorem next_of_held
    {st : State} {line : Text} {block : Block}
    (hmarker : marker? line = none) (hregion : st.region = .inside block) :
    st.next line = st.holdAll block [line] := by
  simp [next, hmarker, hregion, hold_eq_holdAll]

theorem held_next_of_markup
    {st : State} {line : Text}
    (hmarker : marker? line = none) (hregion : st.region = .markup) (block : Block) :
    (st.next line).held block = st.held block := by
  simp only [next, hmarker, hregion]
  split <;> cases block <;> rfl

theorem pending_next_of_markup
    {st : State} {line : Text}
    (hmarker : marker? line = none) (hregion : st.region = .markup) :
    (st.next line).pending = st.pending := by
  simp only [pending, held_next_of_markup hmarker hregion]

theorem region_next_of_markup
    {st : State} {line : Text}
    (hmarker : marker? line = none) (hregion : st.region = .markup) :
    (st.next line).region = .markup := by
  simp only [next, hmarker, hregion]
  split
  · exact hregion
  · rfl

/-! ## Conditions on what is held -/

/-- Every line held back is trimmed and is no marker. -/
def WellHeld (st : State) : Prop :=
  ∀ block, ∀ line ∈ (st.held block).lines, line.IsTrimmed ∧ marker? line = none

theorem wellHeld_initial : ({} : State).WellHeld := by
  intro block line hmem
  cases block <;> simp [held] at hmem

theorem WellHeld.next
    {st : State} (hst : st.WellHeld) {line : Text} (hline : line.IsTrimmed) :
    (st.next line).WellHeld := by
  intro other l hl
  cases st.turn line with
  | opens block hmarker =>
      rw [next_of_opens hmarker, held_enter] at hl
      split at hl
      · simp at hl
      · exact hst other l hl
  | closes block hmarker =>
      rw [next_of_closes hmarker, held_leave] at hl
      split at hl
      · simp at hl
      · exact hst other l hl
  | held block hmarker hregion =>
      rw [next_of_held hmarker hregion, held_holdAll] at hl
      split at hl
      · rcases List.mem_append.mp hl with hl | hl
        · exact hst block l hl
        · rw [List.mem_singleton.mp hl]
          exact ⟨hline, hmarker⟩
      · exact hst other l hl
  | markup hmarker hregion =>
      rw [held_next_of_markup hmarker hregion] at hl
      exact hst other l hl

theorem WellHeld.marker?_of_mem_pending
    {st : State} (hst : st.WellHeld) :
    ∀ line ∈ st.pending, marker? line = none := by
  intro line hline
  rcases List.mem_append.mp hline with hline | hline
  · exact (hst .script line hline).2
  · exact (hst .style line hline).2

/-- Nothing is held back for a block outside its region. -/
def Tidy (st : State) : Prop :=
  ∀ block, st.region ≠ .inside block → (st.held block).lines = []

theorem tidy_initial : ({} : State).Tidy := by
  intro block _
  cases block <;> rfl

theorem Tidy.pending_eq_nil
    {st : State} (hst : st.Tidy) (hregion : st.region = .markup) :
    st.pending = [] := by
  rw [pending, hst .script (by simp [hregion]), hst .style (by simp [hregion]), List.append_nil]

theorem Tidy.pending_eq
    {st : State} (hst : st.Tidy) {block : Block} (hregion : st.region = .inside block) :
    st.pending = (st.held block).lines := by
  apply pending_eq_of_other_nil
  apply hst
  rw [hregion]
  simp [block.other_ne.symm]

theorem Tidy.holdAll
    {st : State} (hst : st.Tidy) {block : Block} (hregion : st.region = .inside block)
    (lines : List Text) :
    (st.holdAll block lines).Tidy := by
  intro other hother
  rw [region_holdAll] at hother
  have hne : other ≠ block := by
    rintro rfl
    exact hother hregion
  rw [held_holdAll, if_neg hne]
  exact hst other hother

theorem Tidy.next_of_markup
    {st : State} (hst : st.Tidy) {line : Text}
    (hmarker : marker? line = none) (hregion : st.region = .markup) :
    (st.next line).Tidy := by
  intro block _
  rw [held_next_of_markup hmarker hregion]
  exact hst block (by simp [hregion])

theorem Tidy.enter
    {st : State} {block : Block} (hst : ∀ other, other ≠ block → (st.held other).lines = []) :
    (st.enter block).Tidy := by
  intro other hother
  have hne : other ≠ block := by
    rintro rfl
    exact hother (region_enter st other)
  rw [held_enter, if_neg hne]
  exact hst other hne

theorem Tidy.leave
    {st : State} {block : Block} (hst : ∀ other, other ≠ block → (st.held other).lines = []) :
    (st.leave block).Tidy := by
  intro other _
  rw [held_leave]
  split
  · rfl
  · next hne => exact hst other hne

/-! ## Several lines -/

/-- The state after several lines. -/
def after (st : State) (lines : List Text) : State :=
  lines.foldl next st

theorem after_nil (st : State) :
    st.after [] = st := rfl

theorem after_cons (st : State) (line : Text) (rest : List Text) :
    st.after (line :: rest) = (st.next line).after rest := rfl

theorem after_append (st : State) (lines more : List Text) :
    st.after (lines ++ more) = (st.after lines).after more :=
  List.foldl_append

/-- Inside a block, lines that are no markers are held back one after the other. -/
theorem after_of_inside
    {st : State} {block : Block} (hregion : st.region = .inside block)
    {body : List Text} (hbody : ∀ line ∈ body, marker? line = none) :
    st.after body = st.holdAll block body := by
  induction body generalizing st with
  | nil => rw [after_nil, holdAll_nil]
  | cons line body ih =>
      obtain ⟨hline, hrest⟩ := List.forall_mem_cons.mp hbody
      rw [after_cons, next_of_held hline hregion,
        ih (by rw [region_holdAll, hregion]) hrest, holdAll_holdAll, List.singleton_append]

end State

end Layout
end Reindent
