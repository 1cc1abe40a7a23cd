import Mathlib.Data.List.Forall2
import Reindent.Layout.Block
import Reindent.Proofs.Text.Lines

/-!
# Well-nested code in a block

The body of a block is read here as code: lines that stand for themselves, and code enclosed by an
opening and a closing line.  Code carries what its lines have to satisfy, so it can only be built
over well-nested bodies.

The levels of a body come from a counter.  A closing line takes the counter one level back before
the line is placed, and in a script its brackets are then counted once more, unless the line ends in
a comma.  So the counter falls behind the depth of the code.  It cannot fall below zero, which hides
the loss at the top, and at the end of an enclosure at the top.  `Code.Steady` says that it is
hidden everywhere, and this is exactly when the code is written by its depth.
-/

namespace Reindent
namespace Layout

/-! ## Lines of code -/

namespace Block

/-- How a line of a block moves the level for the lines after it, once it has been placed. -/
def change : Block → Text → Int
  | .script, line => Line.levelChange line
  | .style, line => if opensRule line then 1 else 0

theorem levelAfter_eq_shift (block : Block) (level : ℕ) (line : Text) :
    block.levelAfter level line = shift (block.placement level line) (block.change line) := by
  cases block with
  | script => rfl
  | style =>
      simp only [levelAfter, change]
      split <;> simp [shift]

/-- A line that is not blank, starts with no closing bracket and moves the level by a change. -/
def Moves (block : Block) (change : Int) (line : Text) : Prop :=
  line ≠ [] ∧ Text.trim line = line ∧ Line.startsWithAny block.closers line = false ∧
    block.change line = change

instance decidableMoves (block : Block) (change : Int) : DecidablePred (block.Moves change) :=
  fun line => inferInstanceAs (Decidable (line ≠ [] ∧ Text.trim line = line ∧
    Line.startsWithAny block.closers line = false ∧ block.change line = change))

/-- A line that starts with a closing bracket.  In a script it has no opening bracket. -/
def Closes (block : Block) (line : Text) : Prop :=
  Text.trim line = line ∧ Line.startsWithAny block.closers line = true ∧
    (block = .script → line.any Line.openers.contains = false)

instance decidableCloses (block : Block) : DecidablePred block.Closes :=
  fun line => inferInstanceAs (Decidable (Text.trim line = line ∧
    Line.startsWithAny block.closers line = true ∧
      (block = .script → line.any Line.openers.contains = false)))

/-- A closing line of a script counts its brackets a second time unless it ends in a bracket and a
comma.  In a style sheet no line does. -/
def keepsLevel : Block → Text → Bool
  | .script, line => Line.isContinuation line
  | .style, _ => true

variable {block : Block} {line : Text}

theorem Closes.ne_nil (h : block.Closes line) :
    line ≠ [] := by
  rintro rfl
  exact absurd h.2.1 (by simp [Line.startsWithAny])

/-- A line without an opening brace does not open an object literal. -/
theorem opensCallObject_eq_false
    (h : line.any Line.openers.contains = false) :
    Line.opensCallObject line = false := by
  have hbrace : '{' ∉ line.reverse := by
    rw [List.mem_reverse]
    intro hmem
    exact absurd (List.any_eq_false.mp h _ hmem) (by decide)
  unfold Line.opensCallObject
  split
  · next rest hrest =>
    dsimp only
    split
    · rw [hrest] at hbrace
      simp at hbrace
    · rfl
  · dsimp only
    split
    · next before heq =>
      rw [heq] at hbrace
      simp at hbrace
    · rfl

/-- The closing brackets of a script line are all that is counted, unless it ends in a comma. -/
theorem Closes.levelChange_eq
    (h : script.Closes line) :
    Line.levelChange line =
      if Line.isContinuation line then 0 else -(line.countP Line.closers.contains : Int) := by
  have hopeners : line.countP Line.openers.contains = 0 := by
    rw [List.countP_eq_zero]
    simpa using h.2.2 rfl
  rw [Line.levelChange, opensCallObject_eq_false (h.2.2 rfl), Line.bracketBalance, hopeners]
  simp

theorem Closes.countP_pos
    (h : script.Closes line) :
    0 < line.countP Line.closers.contains := by
  obtain ⟨-, hstarts, -⟩ := h
  cases line with
  | nil => simp [Line.startsWithAny] at hstarts
  | cons c rest =>
      rw [List.countP_pos_iff]
      exact ⟨c, List.mem_cons_self, hstarts⟩

theorem Closes.opensRule_eq
    (h : style.Closes line) :
    opensRule line = false := by
  obtain ⟨-, hstarts, -⟩ := h
  cases line with
  | nil => simp [Line.startsWithAny] at hstarts
  | cons c rest =>
      have hc : c = '}' := by simpa [Line.startsWithAny, closers] using hstarts
      simp [opensRule, hc]

/-- A closing line never moves the level up. -/
theorem Closes.change_le
    (h : block.Closes line) :
    block.change line ≤ 0 := by
  cases block with
  | script =>
      rw [change, h.levelChange_eq]
      split <;> omega
  | style => simp [change, h.opensRule_eq]

theorem Closes.change_eq_zero_iff
    (h : block.Closes line) :
    block.change line = 0 ↔ block.keepsLevel line = true := by
  cases block with
  | script =>
      have hpos := h.countP_pos
      rw [change, h.levelChange_eq, keepsLevel]
      split
      · next hcomma => exact iff_of_true rfl hcomma
      · next hcomma =>
        refine iff_of_false ?_ hcomma
        omega
  | style => simp [change, h.opensRule_eq, keepsLevel]

end Block

/-! ## Code -/

/-- Well-nested code of a block: lines one after the other, some of which enclose more code. -/
inductive Code (block : Block) where
  | nil
  | blank (rest : Code block)
  | leaf (line : Text) (rest : Code block) (isLeaf : block.Moves 0 line)
  | enclosed (opener : Text) (inside : Code block) (closer : Text) (rest : Code block)
      (opens : block.Moves 1 opener) (closes : block.Closes closer)

namespace Code

variable {block : Block}

/-- The lines of the code in their order. -/
def lines : Code block → List Text
  | .nil => []
  | .blank rest => [] :: rest.lines
  | .leaf line rest _ => line :: rest.lines
  | .enclosed opener inside closer rest _ _ =>
    opener :: (inside.lines ++ closer :: rest.lines)

/-- The code with its own lines at a level and enclosed code one level deeper. -/
def written (unit : Text) : ℕ → Code block → List Text
  | _, .nil => []
  | level, .blank rest => [] :: rest.written unit level
  | level, .leaf line rest _ => indented unit level line :: rest.written unit level
  | level, .enclosed opener inside closer rest _ _ =>
    indented unit level opener ::
      (inside.written unit (level + 1) ++ indented unit level closer :: rest.written unit level)

/-- There are only blank lines. -/
def IsBlank : Code block → Prop
  | .nil => True
  | .blank rest => rest.IsBlank
  | .leaf .. => False
  | .enclosed .. => False

/-- At a depth, no enclosure of the code shifts the lines behind it: its closing line keeps the
level, or it stands at the top, where the level is zero, or it stands inside an enclosure at the top
and only the closing line of that one is left. -/
def Steady : ℕ → Code block → Prop
  | _, .nil => True
  | depth, .blank rest => rest.Steady depth
  | depth, .leaf _ rest _ => rest.Steady depth
  | depth, .enclosed _ inside closer rest _ _ =>
    inside.Steady (depth + 1) ∧ rest.Steady depth ∧
      (block.keepsLevel closer = true ∨ depth = 0 ∨ depth = 1 ∧ rest.IsBlank)

instance decidableIsBlank : DecidablePred (@IsBlank block)
  | .nil => isTrue trivial
  | .blank rest => decidableIsBlank rest
  | .leaf .. => isFalse id
  | .enclosed .. => isFalse id

instance decidableSteady : (depth : ℕ) → DecidablePred (@Steady block depth)
  | _, .nil => isTrue trivial
  | depth, .blank rest => decidableSteady depth rest
  | depth, .leaf _ rest _ => decidableSteady depth rest
  | depth, .enclosed _ inside closer rest _ _ =>
    have : Decidable (inside.Steady (depth + 1)) := decidableSteady (depth + 1) inside
    have : Decidable (rest.Steady depth) := decidableSteady depth rest
    inferInstanceAs (Decidable (inside.Steady (depth + 1) ∧ rest.Steady depth ∧
      (block.keepsLevel closer = true ∨ depth = 0 ∨ depth = 1 ∧ rest.IsBlank)))

/-! ## The counter -/

/-- The level that the counter has behind the code. -/
def reached : ℕ → Code block → ℕ
  | level, .nil => level
  | level, .blank rest => rest.reached level
  | level, .leaf _ rest _ => rest.reached level
  | level, .enclosed _ inside closer rest _ _ =>
    rest.reached (shift (dedent (inside.reached (level + 1))) (block.change closer))

/-- The lines of the code at the levels that the counter gives them. -/
def counted (base : Int) : ℕ → Code block → List Placed
  | _, .nil => []
  | level, .blank rest => .blank :: rest.counted base level
  | level, .leaf line rest _ => .line (base + level) line :: rest.counted base level
  | level, .enclosed opener inside closer rest _ _ =>
    .line (base + level) opener ::
      (inside.counted base (level + 1) ++
        .line (base + dedent (inside.reached (level + 1))) closer ::
          rest.counted base (shift (dedent (inside.reached (level + 1))) (block.change closer)))

/-- The lines of the code at the levels of their depth. -/
def placed (base : Int) : ℕ → Code block → List Placed
  | _, .nil => []
  | depth, .blank rest => .blank :: rest.placed base depth
  | depth, .leaf line rest _ => .line (base + depth) line :: rest.placed base depth
  | depth, .enclosed opener inside closer rest _ _ =>
    .line (base + depth) opener ::
      (inside.placed base (depth + 1) ++ .line (base + depth) closer :: rest.placed base depth)

end Code

theorem Block.placedFrom_of_moves
    {block : Block} {change : Int} {line : Text} (h : block.Moves change line) (base : Int)
    (level : ℕ) (rest : List Text) :
    block.placedFrom base level (line :: rest) =
      .line (base + level) line :: block.placedFrom base (shift level change) rest := by
  obtain ⟨hne, htrim, hstarts, hchange⟩ := h
  have hplacement : block.placement level line = level := by simp [Block.placement, hstarts]
  rw [Block.placedFrom]
  simp only [htrim, if_neg hne, Block.levelAfter_eq_shift, hplacement, hchange]

theorem Block.placedFrom_of_closes
    {block : Block} {line : Text} (h : block.Closes line) (base : Int) (level : ℕ)
    (rest : List Text) :
    block.placedFrom base level (line :: rest) =
      .line (base + dedent level) line ::
        block.placedFrom base (shift (dedent level) (block.change line)) rest := by
  have hplacement : block.placement level line = dedent level := by
    simp [Block.placement, h.2.1]
  rw [Block.placedFrom]
  simp only [h.1, if_neg h.ne_nil, Block.levelAfter_eq_shift, hplacement]

namespace Code

variable {block : Block}

theorem shift_zero (level : ℕ) :
    shift level 0 = level := by
  simp [shift]

theorem shift_one (level : ℕ) :
    shift level 1 = level + 1 := by
  simp [shift]

/-- The counter goes over code and comes out with the level it has reached. -/
theorem placedFrom_lines_append (base : Int) (code : Code block) (level : ℕ) (more : List Text) :
    block.placedFrom base level (code.lines ++ more) =
      code.counted base level ++ block.placedFrom base (code.reached level) more := by
  induction code generalizing level more with
  | nil => rfl
  | blank rest ih =>
      rw [lines, counted, reached, List.cons_append, List.cons_append, ← ih]
      rfl
  | leaf line rest isLeaf ih =>
      rw [lines, counted, reached, List.cons_append, List.cons_append, ← ih,
        Block.placedFrom_of_moves isLeaf, shift_zero]
  | enclosed opener inside closer rest opens closes ihinside ihrest =>
      rw [lines, counted, reached, List.cons_append, List.cons_append,
        Block.placedFrom_of_moves opens, shift_one, List.append_assoc, List.append_assoc,
        ihinside, List.cons_append, List.cons_append, Block.placedFrom_of_closes closes, ihrest]

theorem placed_lines (base : Int) (code : Code block) :
    block.placed base code.lines = code.counted base 0 := by
  have h := placedFrom_lines_append base code 0 []
  rwa [List.append_nil, Block.placedFrom, List.append_nil] at h

theorem length_counted (base : Int) (code : Code block) (level depth : ℕ) :
    (code.counted base level).length = (code.placed base depth).length := by
  induction code generalizing level depth with
  | nil => rfl
  | blank rest ih => simp [counted, placed, ih level depth]
  | leaf line rest isLeaf ih => simp [counted, placed, ih level depth]
  | enclosed opener inside closer rest opens closes ihinside ihrest =>
      simp [counted, placed, ihinside _ (depth + 1), ihrest _ depth]

theorem shift_le
    {change : Int} (h : change ≤ 0) (level : ℕ) :
    shift level change ≤ level := by
  rw [shift]
  omega

theorem reached_le (code : Code block) (level : ℕ) :
    code.reached level ≤ level := by
  induction code generalizing level with
  | nil => exact Nat.le_refl _
  | blank rest ih => exact ih level
  | leaf line rest isLeaf ih => exact ih level
  | enclosed opener inside closer rest opens closes ihinside ihrest =>
      have hinside : dedent (inside.reached (level + 1)) ≤ level := by
        have := ihinside (level + 1)
        rw [dedent]
        omega
      rw [reached]
      exact (ihrest _).trans ((shift_le closes.change_le _).trans hinside)

/-! ## Code written by its depth -/

theorem counted_of_isBlank
    {code : Code block} (h : code.IsBlank) (base : Int) (level depth : ℕ) :
    code.counted base level = code.placed base depth ∧ code.reached level = level ∧
      code.Steady depth := by
  induction code with
  | nil => exact ⟨rfl, rfl, trivial⟩
  | blank rest ih =>
      obtain ⟨hcounted, hreached, hsteady⟩ := ih h
      exact ⟨congrArg _ hcounted, hreached, hsteady⟩
  | leaf line rest isLeaf ih => cases h
  | enclosed opener inside closer rest opens closes ihinside ihrest => cases h

/-- A counter that has fallen behind puts the next line that is not blank at the wrong level. -/
theorem counted_ne_of_lt
    {code : Code block} (h : ¬ code.IsBlank) (base : Int) {level depth : ℕ} (hlt : level < depth) :
    code.counted base level ≠ code.placed base depth := by
  induction code with
  | nil => exact absurd trivial h
  | blank rest ih =>
      intro heq
      exact ih h (List.cons.inj heq).2
  | leaf line rest isLeaf ih =>
      intro heq
      have hline := (List.cons.inj heq).1
      simp at hline
      omega
  | enclosed opener inside closer rest opens closes ihinside ihrest =>
      intro heq
      have hline := (List.cons.inj heq).1
      simp at hline
      omega

/-- Behind a closing line, the rest of the code is placed by its depth if the line keeps the level,
or if nothing is left but the end of an enclosure at the top. -/
theorem lowered_iff_steady
    {base : Int} {code : Code block} {depth : ℕ}
    (h : (code.counted base depth = code.placed base depth ∧
      dedent (code.reached depth) = dedent depth) ↔ code.Steady depth)
    {change : Int} (hchange : change ≤ 0) :
    (code.counted base (shift depth change) = code.placed base depth ∧
      dedent (code.reached (shift depth change)) = dedent depth) ↔
    code.Steady depth ∧ (change = 0 ∨ depth = 0 ∨ depth = 1 ∧ code.IsBlank) := by
  have hle : shift depth change ≤ depth := shift_le hchange depth
  by_cases hkept : shift depth change = depth
  · have hcause : change = 0 ∨ depth = 0 := by
      rw [shift] at hkept
      omega
    rw [hkept, h]
    refine (and_iff_left ?_).symm
    exact hcause.imp_right Or.inl
  · have hlt : shift depth change < depth := by omega
    have hmoved : ¬ (change = 0 ∨ depth = 0) := by
      rintro (rfl | rfl)
      · exact hkept (shift_zero depth)
      · omega
    rw [not_or] at hmoved
    by_cases hblank : code.IsBlank
    · obtain ⟨hcounted, hreached, hsteady⟩ :=
        counted_of_isBlank hblank base (shift depth change) depth
      simp only [hcounted, hreached, hsteady, hblank, hmoved, true_and, false_or, and_true, dedent]
      omega
    · have hne := counted_ne_of_lt hblank base hlt
      simp [hne, hblank, hmoved]

/-- The counter gives each line the level of its depth, and takes the line that closes the code to
the level around it, exactly when the code is steady. -/
theorem counted_eq_placed_iff (base : Int) (code : Code block) (depth : ℕ) :
    (code.counted base depth = code.placed base depth ∧
      dedent (code.reached depth) = dedent depth) ↔ code.Steady depth := by
  induction code generalizing depth with
  | nil => exact iff_of_true ⟨rfl, rfl⟩ trivial
  | blank rest ih =>
      rw [counted, placed, reached, Steady, ← ih, List.cons.injEq]
      simp
  | leaf line rest isLeaf ih =>
      rw [counted, placed, reached, Steady, ← ih, List.cons.injEq]
      simp
  | enclosed opener inside closer rest opens closes ihinside ihrest =>
      -- The closing line stands at the depth of its opening line if the inside came out right.
      have hlevel : dedent (depth + 1) = depth := rfl
      have hparts : ∀ level, inside.counted base (depth + 1) ++
            .line (base + dedent (inside.reached (depth + 1))) closer :: rest.counted base level =
          inside.placed base (depth + 1) ++ .line (base + depth) closer :: rest.placed base depth ↔
          (inside.counted base (depth + 1) = inside.placed base (depth + 1) ∧
            dedent (inside.reached (depth + 1)) = dedent (depth + 1)) ∧
          rest.counted base level = rest.placed base depth := by
        intro level
        constructor
        · intro heq
          obtain ⟨hinside, htail⟩ := List.append_inj heq (length_counted base inside _ _)
          obtain ⟨hcloser, hrest⟩ := List.cons.inj htail
          refine ⟨⟨hinside, ?_⟩, hrest⟩
          simp at hcloser
          omega
        · rintro ⟨⟨hinside, hcloser⟩, hrest⟩
          rw [hinside, hcloser, hrest, hlevel]
      rw [counted, placed, reached, Steady, List.cons.injEq, hparts, ← ihinside,
        ← closes.change_eq_zero_iff, ← lowered_iff_steady (ihrest depth) closes.change_le]
      constructor
      · rintro ⟨⟨-, hinside, hrest⟩, hback⟩
        rw [hinside.2, hlevel] at hrest hback
        exact ⟨hinside, hrest, hback⟩
      · rintro ⟨hinside, hrest, hback⟩
        refine ⟨⟨rfl, hinside, ?_⟩, ?_⟩
        · rwa [hinside.2, hlevel]
        · rwa [hinside.2, hlevel]

/-! ## The text of the code -/

/-- The same line at a level that is not deeper, or a blank line twice. -/
inductive Behind : Placed → Placed → Prop
  | blank : Behind .blank .blank
  | line {level level' : Int} (nonneg : 0 ≤ level) (le : level ≤ level') (text : Text) :
      Behind (.line level text) (.line level' text)

theorem forall₂_behind (base : ℕ) (code : Code block) {level depth : ℕ} (hle : level ≤ depth) :
    List.Forall₂ Behind (code.counted base level) (code.placed base depth) := by
  induction code generalizing level depth with
  | nil => exact List.Forall₂.nil
  | blank rest ih => exact List.Forall₂.cons Behind.blank (ih hle)
  | leaf line rest isLeaf ih =>
      exact List.Forall₂.cons (Behind.line (by omega) (by omega) line) (ih hle)
  | enclosed opener inside closer rest opens closes ihinside ihrest =>
      have hreached : dedent (inside.reached (level + 1)) ≤ depth := by
        have := inside.reached_le (level + 1)
        rw [dedent]
        omega
      have hrest := ihrest ((shift_le closes.change_le _).trans hreached)
      refine List.Forall₂.cons (Behind.line (by omega) (by omega) opener) ?_
      refine List.rel_append (ihinside (by omega)) ?_
      exact List.Forall₂.cons (Behind.line (by omega) (by omega) closer) hrest

theorem Behind.length_le
    {p q : Placed} (h : Behind p q) (unit : Text) :
    (p.indented unit).length ≤ (q.indented unit).length := by
  cases h with
  | blank => exact Nat.le_refl _
  | line nonneg le text =>
      simp only [Placed.indented, Layout.indented, List.length_append, Text.length_repeated]
      have := Nat.mul_le_mul_right unit.length (Int.toNat_le_toNat le)
      omega

theorem Behind.eq_of_length_eq
    {p q : Placed} (h : Behind p q) {unit : Text} (hunit : unit ≠ [])
    (hlength : (p.indented unit).length = (q.indented unit).length) :
    p = q := by
  cases h with
  | blank => rfl
  | line nonneg le text =>
      simp only [Placed.indented, Layout.indented, List.length_append, Text.length_repeated,
        Nat.add_right_cancel_iff] at hlength
      have hlevel := Nat.eq_of_mul_eq_mul_right (List.length_pos_of_ne_nil hunit) hlength
      congr 1
      omega

theorem map_indented_nil
    {ps qs : List Placed} (h : List.Forall₂ Behind ps qs) :
    ps.map (Placed.indented []) = qs.map (Placed.indented []) := by
  induction h with
  | nil => rfl
  | cons hpq _ ih =>
      rw [List.map_cons, List.map_cons, ih]
      cases hpq <;> rfl

/-- Lines that are not deeper make a text that is not longer, and a shorter one unless they are the
same. -/
theorem length_unlines_le
    {ps qs : List Placed} (h : List.Forall₂ Behind ps qs) {unit : Text} (hunit : unit ≠ []) :
    (Text.unlines (ps.map (Placed.indented unit))).length ≤
        (Text.unlines (qs.map (Placed.indented unit))).length ∧
      ((Text.unlines (ps.map (Placed.indented unit))).length =
        (Text.unlines (qs.map (Placed.indented unit))).length → ps = qs) := by
  induction h with
  | nil => exact ⟨Nat.le_refl _, fun _ => rfl⟩
  | @cons p q ps qs hpq hrest ih =>
      obtain ⟨hle, heq⟩ := ih
      have hhead := hpq.length_le unit
      by_cases hnil : ps = []
      · subst hnil
        cases hrest
        exact ⟨hhead, fun hlength => by rw [hpq.eq_of_length_eq hunit hlength]⟩
      · have hnil' : qs ≠ [] := by
          rintro rfl
          cases hrest
          exact hnil rfl
        rw [List.map_cons, List.map_cons, Text.unlines_cons _ (by simpa using hnil),
          Text.unlines_cons _ (by simpa using hnil')]
        simp only [List.length_append, List.length_cons]
        refine ⟨by omega, fun hlength => ?_⟩
        rw [hpq.eq_of_length_eq hunit (by omega), heq (by omega)]

theorem map_indented_placed (unit : Text) (base : ℕ) (code : Code block) (depth : ℕ) :
    (code.placed base depth).map (Placed.indented unit) = code.written unit (base + depth) := by
  have hlevel : ∀ n : ℕ, ((base : Int) + n).toNat = base + n := by omega
  induction code generalizing depth with
  | nil => rfl
  | blank rest ih => simp only [placed, written, List.map_cons, ih, Placed.indented]
  | leaf line rest isLeaf ih =>
      simp only [placed, written, List.map_cons, ih, Placed.indented, hlevel]
  | enclosed opener inside closer rest opens closes ihinside ihrest =>
      simp only [placed, written, List.map_cons, List.map_append, ihinside, ihrest,
        Placed.indented, hlevel, Nat.add_assoc]

/-- Code is written by its depth exactly when it is steady, if the unit is not empty. -/
theorem body_lines_eq_iff (unit : Text) (base : ℕ) (code : Code block) :
    block.body unit base code.lines = Text.unlines (code.written unit base) ↔
      unit = [] ∨ code.Steady 0 := by
  have hbehind := forall₂_behind base code (Nat.le_refl 0)
  have hback : dedent (code.reached 0) = dedent 0 := by
    have := code.reached_le 0
    simp only [dedent]
    omega
  rw [Block.body, placed_lines, ← Nat.add_zero base, ← map_indented_placed, Nat.add_zero]
  by_cases hunit : unit = []
  · refine iff_of_true ?_ (Or.inl hunit)
    rw [hunit, map_indented_nil hbehind]
  · rw [or_iff_right hunit, ← counted_eq_placed_iff base, and_iff_left hback]
    constructor
    · intro heq
      exact (length_unlines_le hbehind hunit).2 (congrArg List.length heq)
    · intro heq
      rw [heq]

end Code

/-- A script is written by the depth of its code, every line behind as many units as it has
enclosures around it and both ends of an enclosure at one level, exactly when the code is steady.
An empty unit shows no levels. -/
theorem body_script_lines_eq_written_iff (unit : Text) (base : ℕ) (code : Code .script) :
    Block.script.body unit base code.lines = Text.unlines (code.written unit base) ↔
      unit = [] ∨ code.Steady 0 :=
  code.body_lines_eq_iff unit base

/-- A table of values, nested to a depth of three, with a comma behind every part that more lines
follow, and a call at its end. -/
def nestedTable : Code .script :=
  .enclosed "const table = \x7b".toList
    (.enclosed "rows: \x7b".toList
      (.enclosed "a: [".toList (.blank (.leaf "1".toList .nil (by decide))) "],".toList
        (.leaf "b: 2".toList .nil (by decide)) (by decide) (by decide))
      "\x7d,".toList
      (.enclosed "show(\x7b".toList (.leaf "x".toList .nil (by decide)) "\x7d)".toList
        (.blank .nil) (by decide) (by decide))
      (by decide) (by decide))
    "\x7d;".toList (.leaf "done();".toList .nil (by decide)) (by decide) (by decide)

theorem body_nestedTable :
    nestedTable.Steady 0 ∧
      Block.script.body [' ', ' '] 1 nestedTable.lines =
        Text.unlines (["  const table = \x7b", "    rows: \x7b", "      a: [", "", "        1",
          "      ],", "      b: 2", "    \x7d,", "    show(\x7b", "      x", "    \x7d)", "",
          "  \x7d;", "  done();"].map String.toList) := by
  have hsteady : nestedTable.Steady 0 := by decide +kernel
  have hbody := (body_script_lines_eq_written_iff [' ', ' '] 1 nestedTable).mpr (Or.inr hsteady)
  exact ⟨hsteady, hbody.trans (by decide +kernel)⟩

/-- A condition inside another one, with a statement behind it. -/
def nestedCondition : Code .script :=
  .enclosed "if (a) \x7b".toList
    (.enclosed "if (b) \x7b".toList (.leaf "c();".toList .nil (by decide)) "\x7d".toList
      (.leaf "d();".toList .nil (by decide)) (by decide) (by decide))
    "\x7d".toList .nil (by decide) (by decide)

/-- Behind the inner condition the level is lost: the statement stands outside both conditions. -/
theorem body_nestedCondition :
    Block.script.body tab 0 nestedCondition.lines =
        "if (a) \x7b\n\tif (b) \x7b\n\t\tc();\n\t\x7d\nd();\n\x7d".toList ∧
      Text.unlines (nestedCondition.written tab 0) =
        "if (a) \x7b\n\tif (b) \x7b\n\t\tc();\n\t\x7d\n\td();\n\x7d".toList ∧
      Block.script.body tab 0 nestedCondition.lines ≠
        Text.unlines (nestedCondition.written tab 0) := by
  decide +kernel

end Layout
end Reindent
