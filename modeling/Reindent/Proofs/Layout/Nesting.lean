import Reindent.Proofs.Layout.Flow

/-!
# Well-nested markup

Behind the first tag the level of a line is decided by its kind alone.  Here the markup is read as
a tree of items: lines that stand for themselves, items enclosed by tags or by brackets, and whole
blocks.  A tree carries what its lines have to satisfy, so it can only be built over well-nested
markup.

A layout writes every item at the level of the items around it, one level deeper inside an
enclosure, and is back at its level behind the item.  Each kind of line is looked at once, in the
lemmas on `BehindTag`; the induction over the trees only uses what these say about a step.
-/

namespace Reindent
namespace Layout

/-! ## Items -/

/-- A line of the markup that is neither empty nor a marker, with its kind behind a tag. -/
def OfKind (kind : Line.Kind) (line : Text) : Prop :=
  line ≠ [] ∧ marker? line = none ∧ Line.kind true line = kind

instance decidableOfKind (kind : Line.Kind) : DecidablePred (OfKind kind) := fun line =>
  inferInstanceAs (Decidable (line ≠ [] ∧ marker? line = none ∧ Line.kind true line = kind))

/-- A line that stands for itself: it neither opens nor closes anything. -/
def IsLeaf (line : Text) : Prop :=
  OfKind .inlineElement line ∨ OfKind .selfClosing line ∨
    OfKind .other line ∧ Line.closesGroup line = false ∧ Line.opensGroup line = false

instance decidableIsLeaf : DecidablePred IsLeaf := fun line =>
  inferInstanceAs (Decidable (OfKind .inlineElement line ∨ OfKind .selfClosing line ∨
    OfKind .other line ∧ Line.closesGroup line = false ∧ Line.opensGroup line = false))

/-- Items are enclosed by an opening and a closing tag, whatever their names, or by lines of no
other kind that end and start with brackets. -/
inductive Enclosure where
  | element
  | group
  deriving DecidableEq, Repr

namespace Enclosure

/-- The line opens an enclosure and closes none. -/
def Opens : Enclosure → Text → Prop
  | .element, line => OfKind .openingTag line
  | .group, line =>
    OfKind .other line ∧ Line.closesGroup line = false ∧ Line.opensGroup line = true

/-- The line closes an enclosure and opens none. -/
def Closes : Enclosure → Text → Prop
  | .element, line => OfKind .closingTag line
  | .group, line =>
    OfKind .other line ∧ Line.closesGroup line = true ∧ Line.opensGroup line = false

instance decidableOpens : (enclosure : Enclosure) → DecidablePred enclosure.Opens
  | .element => decidableOfKind .openingTag
  | .group => fun line => inferInstanceAs (Decidable (OfKind .other line ∧
      Line.closesGroup line = false ∧ Line.opensGroup line = true))

instance decidableCloses : (enclosure : Enclosure) → DecidablePred enclosure.Closes
  | .element => decidableOfKind .closingTag
  | .group => fun line => inferInstanceAs (Decidable (OfKind .other line ∧
      Line.closesGroup line = true ∧ Line.opensGroup line = false))

end Enclosure

/-- A piece of well-nested markup. -/
inductive Item where
  | blank
  | leaf (line : Text) (isLeaf : IsLeaf line)
  | enclosed (enclosure : Enclosure) (opener : Text) (items : List Item) (closer : Text)
      (opens : enclosure.Opens opener) (closes : enclosure.Closes closer)
  | block (kind : Block) (opener : Text) (body : List Text) (closer : Text)
      (opens : marker? opener = some (.opens kind))
      (plain : ∀ line ∈ body, marker? line = none)
      (closes : marker? closer = some (.closes kind))

namespace Item

mutual

/-- The lines of an item in their order. -/
def lines : Item → List Text
  | .blank => [[]]
  | .leaf line _ => [line]
  | .enclosed _ opener items closer _ _ => opener :: (linesOf items ++ [closer])
  | .block _ opener body closer _ _ _ => opener :: (body ++ [closer])

/-- The lines of several items, one item after the other. -/
def linesOf : List Item → List Text
  | [] => []
  | item :: rest => item.lines ++ linesOf rest

end

mutual

/-- The item with its own lines at a level and the items inside it one level deeper.  The body of a
block is laid out by its own rules, from one level deeper on. -/
def written (unit : Text) (level : ℕ) : Item → List Text
  | .blank => [[]]
  | .leaf line _ => [indented unit level line]
  | .enclosed _ opener items closer _ _ =>
    indented unit level opener ::
      (writtenOf unit (level + 1) items ++ [indented unit level closer])
  | .block kind opener body closer _ _ _ =>
    indented unit level opener ::
      (bodyLines (kind.body unit (level + 1) body) ++ [indented unit level closer])

/-- Several items at the same level. -/
def writtenOf (unit : Text) (level : ℕ) : List Item → List Text
  | [] => []
  | item :: rest => item.written unit level ++ writtenOf unit level rest

end

end Item

/-! ## Lines of the markup behind a tag -/

namespace State

/-- The state stands in the markup, and a tag has been seen. -/
structure BehindTag (st : State) : Prop where
  region_eq : st.region = .markup
  tagSeen_eq : st.tagSeen = true

/-- A later state is back where an earlier one was: at its level, in its region, and with no line
held back that was not held back before. -/
structure BackAt (st later : State) : Prop where
  level_eq : later.level = st.level
  region_eq : later.region = st.region
  tagSeen_eq : later.tagSeen = st.tagSeen
  held_eq : ∀ block, later.held block = st.held block ∨ (later.held block).lines = []

theorem BackAt.refl (st : State) : st.BackAt st where
  level_eq := rfl
  region_eq := rfl
  tagSeen_eq := rfl
  held_eq _ := Or.inl rfl

theorem BackAt.trans
    {st mid later : State} (h : st.BackAt mid) (h' : mid.BackAt later) :
    st.BackAt later where
  level_eq := h'.level_eq.trans h.level_eq
  region_eq := h'.region_eq.trans h.region_eq
  tagSeen_eq := h'.tagSeen_eq.trans h.tagSeen_eq
  held_eq block := by
    rcases h'.held_eq block with heq | hnil
    · rw [heq]
      exact h.held_eq block
    · exact Or.inr hnil

theorem BehindTag.of_backAt
    {st later : State} (hst : st.BehindTag) (h : st.BackAt later) :
    later.BehindTag where
  region_eq := h.region_eq.trans hst.region_eq
  tagSeen_eq := h.tagSeen_eq.trans hst.tagSeen_eq

/-- The state at another level. -/
def atLevel (st : State) (level : ℕ) : State :=
  { st with level }

theorem atLevel_level (st : State) :
    st.atLevel st.level = st := rfl

theorem BehindTag.atLevel
    {st : State} (hst : st.BehindTag) (level : ℕ) :
    (st.atLevel level).BehindTag where
  region_eq := hst.region_eq
  tagSeen_eq := hst.tagSeen_eq

theorem held_atLevel (st : State) (level : ℕ) (block : Block) :
    (st.atLevel level).held block = st.held block := by
  cases block <;> rfl

/-- Behind a tag a line of the markup is written at its placement and changes only the level. -/
theorem BehindTag.step
    {st : State} (hst : st.BehindTag) (unit : Text) {kind : Line.Kind} {line : Text}
    (hline : OfKind kind line) :
    st.emitted unit line = [indented unit (st.placement line) line] ∧
      st.next line = st.atLevel (st.levelAfter line) := by
  obtain ⟨hne, hmarker, -⟩ := hline
  constructor
  · simp only [emitted, hmarker, hst.region_eq, if_neg hne]
  · simp only [next, hmarker, hst.region_eq, if_neg hne, hst.tagSeen_eq, Bool.true_or,
      State.atLevel]

theorem BehindTag.step_of_leaf
    {st : State} (hst : st.BehindTag) (unit : Text) {line : Text} (hline : IsLeaf line) :
    st.emitted unit line = [indented unit st.level line] ∧ st.next line = st := by
  rcases hline with hline | hline | ⟨hline, hcloses, hopens⟩
  all_goals
    obtain ⟨hemitted, hnext⟩ := hst.step unit hline
    rw [hemitted, hnext]
  · simp [placement, levelAfter, hst.tagSeen_eq, hline.2.2, atLevel_level]
  · simp [placement, levelAfter, hst.tagSeen_eq, hline.2.2, atLevel_level]
  · simp [placement, levelAfter, hst.tagSeen_eq, hline.2.2, hcloses, hopens,
      atLevel_level]

theorem BehindTag.step_of_opens
    {st : State} (hst : st.BehindTag) (unit : Text) {enclosure : Enclosure} {line : Text}
    (hline : enclosure.Opens line) :
    st.emitted unit line = [indented unit st.level line] ∧
      st.next line = st.atLevel (st.level + 1) := by
  cases enclosure with
  | element =>
      obtain ⟨hemitted, hnext⟩ := hst.step unit hline
      rw [hemitted, hnext]
      simp [placement, levelAfter, hst.tagSeen_eq, hline.2.2]
  | group =>
      obtain ⟨hkind, hcloses, hopens⟩ := hline
      obtain ⟨hemitted, hnext⟩ := hst.step unit hkind
      rw [hemitted, hnext]
      simp [placement, levelAfter, hst.tagSeen_eq, hkind.2.2, hcloses, hopens]

theorem BehindTag.step_of_closes
    {st : State} (hst : st.BehindTag) (unit : Text) {enclosure : Enclosure} {line : Text}
    (hline : enclosure.Closes line) :
    st.emitted unit line = [indented unit (dedent st.level) line] ∧
      st.next line = st.atLevel (dedent st.level) := by
  cases enclosure with
  | element =>
      obtain ⟨hemitted, hnext⟩ := hst.step unit hline
      rw [hemitted, hnext]
      simp [placement, levelAfter, hst.tagSeen_eq, hline.2.2]
  | group =>
      obtain ⟨hkind, hcloses, hopens⟩ := hline
      obtain ⟨hemitted, hnext⟩ := hst.step unit hkind
      rw [hemitted, hnext]
      simp [placement, levelAfter, hst.tagSeen_eq, hkind.2.2, hcloses, hopens]

/-- An enclosure that returns to the level of its inside is back at its own level. -/
theorem BackAt.of_raised
    {st inner : State} (h : (st.atLevel (st.level + 1)).BackAt inner) :
    st.BackAt (inner.atLevel (dedent inner.level)) where
  level_eq := by
    have hlevel : inner.level = st.level + 1 := h.level_eq
    simp [atLevel, dedent, hlevel]
  region_eq := h.region_eq
  tagSeen_eq := h.tagSeen_eq
  held_eq block := by
    rw [held_atLevel, ← held_atLevel st (st.level + 1)]
    exact h.held_eq block

/-- A whole block ends where it began. -/
theorem backAt_of_block
    {st : State} (hregion : st.region = .markup) (block : Block) (body : List Text) :
    st.BackAt (((st.enter block).holdAll block body).leave block) where
  level_eq := by
    cases block <;> rfl
  region_eq := by
    rw [region_leave, hregion]
  tagSeen_eq := by
    cases block <;> rfl
  held_eq other := by
    by_cases hother : other = block
    · right
      rw [held_leave, if_pos hother]
    · left
      rw [held_leave, if_neg hother, held_holdAll, if_neg hother, held_enter, if_neg hother]

end State

/-! ## Items at their levels -/

/-- What a layout makes of lines: it writes them in a given form and is back where it was. -/
structure LaysOut (unit : Text) (st : State) (lines written : List Text) : Prop where
  run_eq : run unit st lines = written
  backAt : st.BackAt (st.after lines)

theorem LaysOut.append
    {unit : Text} {st : State} {lines written more written' : List Text}
    (h : LaysOut unit st lines written) (h' : LaysOut unit (st.after lines) more written') :
    LaysOut unit st (lines ++ more) (written ++ written') where
  run_eq := by
    rw [run_append, h.run_eq, h'.run_eq]
  backAt := by
    rw [State.after_append]
    exact h.backAt.trans h'.backAt

theorem laysOut_blank
    (unit : Text) {st : State} (hst : st.BehindTag) :
    LaysOut unit st [[]] [[]] := by
  have hnext : st.next [] = st := by
    simp [State.next, marker?_nil, hst.region_eq]
  refine ⟨?_, ?_⟩
  · simp [run, State.emitted, marker?_nil, hst.region_eq]
  · rw [State.after_cons, hnext]
    exact State.BackAt.refl st

theorem laysOut_leaf
    (unit : Text) {st : State} (hst : st.BehindTag) {line : Text} (hline : IsLeaf line) :
    LaysOut unit st [line] [indented unit st.level line] := by
  obtain ⟨hemitted, hnext⟩ := hst.step_of_leaf unit hline
  refine ⟨?_, ?_⟩
  · rw [run, hemitted, run, List.append_nil]
  · rw [State.after_cons, hnext]
    exact State.BackAt.refl st

/-- Lines that are laid out one level deeper can be enclosed. -/
theorem laysOut_enclosed
    (unit : Text) {st : State} (hst : st.BehindTag) {enclosure : Enclosure}
    {opener closer : Text} (hopener : enclosure.Opens opener) (hcloser : enclosure.Closes closer)
    {inside written : List Text}
    (hinside : LaysOut unit (st.atLevel (st.level + 1)) inside written) :
    LaysOut unit st (opener :: (inside ++ [closer]))
      (indented unit st.level opener :: (written ++ [indented unit st.level closer])) := by
  obtain ⟨hopened, hraised⟩ := hst.step_of_opens unit hopener
  have hinner := (hst.atLevel (st.level + 1)).of_backAt hinside.backAt
  obtain ⟨hclosed, hlowered⟩ := hinner.step_of_closes unit hcloser
  have hlevel : dedent ((st.atLevel (st.level + 1)).after inside).level = st.level :=
    (State.BackAt.of_raised hinside.backAt).level_eq
  refine ⟨?_, ?_⟩
  · rw [run, hopened, hraised, run_append, hinside.run_eq, run, hclosed, hlevel, run,
      List.append_nil, List.singleton_append]
  · rw [State.after_cons, hraised, State.after_append, State.after_cons, hlowered]
    exact State.BackAt.of_raised hinside.backAt

theorem laysOut_block
    (unit : Text) {st : State} (hst : st.BehindTag) {block : Block}
    {opener closer : Text} (hopener : marker? opener = some (.opens block))
    {body : List Text} (hbody : ∀ line ∈ body, marker? line = none)
    (hcloser : marker? closer = some (.closes block)) :
    LaysOut unit st (opener :: (body ++ [closer]))
      (indented unit st.level opener ::
        (bodyLines (block.body unit (st.level + 1) body) ++ [indented unit st.level closer])) := by
  have hinside : (st.enter block).region = .inside block := State.region_enter st block
  refine ⟨?_, ?_⟩
  · rw [run, State.next_of_opens hopener, run_append_of_inside unit hinside hbody]
    simp [run, State.emitted, hopener, hcloser]
  · rw [State.after_cons, State.next_of_opens hopener, State.after_append,
      State.after_of_inside hinside hbody, State.after_cons, State.next_of_closes hcloser]
    exact State.backAt_of_block hst.region_eq block body

mutual

theorem Item.laysOut
    (unit : Text) {st : State} (hst : st.BehindTag) :
    (item : Item) → LaysOut unit st item.lines (item.written unit st.level)
  | .blank => laysOut_blank unit hst
  | .leaf _ isLeaf => laysOut_leaf unit hst isLeaf
  | .enclosed _ _ items _ opens closes =>
    laysOut_enclosed unit hst opens closes (Item.laysOutOf unit (hst.atLevel _) items)
  | .block _ _ _ _ opens plain closes => laysOut_block unit hst opens plain closes

theorem Item.laysOutOf
    (unit : Text) {st : State} (hst : st.BehindTag) :
    (items : List Item) → LaysOut unit st (Item.linesOf items) (Item.writtenOf unit st.level items)
  | [] => ⟨rfl, State.BackAt.refl st⟩
  | item :: rest => by
    have hitem := item.laysOut unit hst
    have hrest := Item.laysOutOf unit (hst.of_backAt hitem.backAt) rest
    rw [hitem.backAt.level_eq] at hrest
    exact hitem.append hrest

end

/-- Behind a tag, well-nested markup is written by its depth, counted from the level of the state,
and leaves the state at that level, in the markup, and with nothing new held back. -/
theorem run_linesOf_eq_writtenOf
    (unit : Text) {st : State} (hregion : st.region = .markup) (htag : st.tagSeen = true)
    (items : List Item) :
    run unit st (Item.linesOf items) = Item.writtenOf unit st.level items ∧
      (st.after (Item.linesOf items)).level = st.level ∧
      (st.after (Item.linesOf items)).region = .markup ∧
      (st.after (Item.linesOf items)).tagSeen = true ∧
      ∀ block, (st.after (Item.linesOf items)).held block = st.held block ∨
        ((st.after (Item.linesOf items)).held block).lines = [] := by
  have hitems := Item.laysOutOf unit (State.BehindTag.mk hregion htag) items
  have hback := hitems.backAt
  exact ⟨hitems.run_eq, hback.level_eq, hback.region_eq.trans hregion,
    hback.tagSeen_eq.trans htag, hback.held_eq⟩

/-- A list that ends with another tag, with a group and a style sheet inside. -/
def mixedList : List Item :=
  [.enclosed .element "<ul>".toList
    [.blank,
      .enclosed .group "rows.map(".toList
        [.leaf "<li>x</li>".toList (by decide),
          .block .style "<style>".toList (["", ".a \x7b", "b: c", "\x7d"].map String.toList)
            "</style>".toList (by decide) (by decide) (by decide),
          .leaf "a, b".toList (by decide)]
        ");".toList (by decide) (by decide)]
    "</ol>".toList (by decide) (by decide),
    .leaf "<br/>".toList (by decide)]

theorem run_linesOf_mixedList :
    run [' ', ' '] { level := 1, tagSeen := true } (Item.linesOf mixedList) =
        ["  <ul>", "", "    rows.map(", "      <li>x</li>", "      <style>", "        .a \x7b",
          "          b: c", "        \x7d", "      </style>", "      a, b", "    );", "  </ol>",
          "  <br/>"].map String.toList ∧
      (({ level := 1, tagSeen := true } : State).after (Item.linesOf mixedList)).level = 1 := by
  obtain ⟨hrun, hlevel, -⟩ :=
    @run_linesOf_eq_writtenOf [' ', ' '] { level := 1, tagSeen := true } rfl rfl mixedList
  refine ⟨?_, hlevel⟩
  rw [hrun]
  decide +kernel

end Layout
end Reindent
