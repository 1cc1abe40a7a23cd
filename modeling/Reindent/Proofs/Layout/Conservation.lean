import Mathlib.Algebra.Order.Group.Multiset
import Mathlib.Tactic.Abel
import Reindent.Proofs.Layout.Flow

/-!
# Which lines a layout keeps

Where every block is closed before the next marker, a layout neither loses, repeats nor moves a
line: only empty lines of block bodies disappear, and `tidied` says which.

Without this condition lines can leave late, in another order, or never.  What still holds is the
balance of the lines that are not empty: each of them is written or is given up, and lines are
given up only when a block is opened again before it was closed and at the end of the text.
-/

namespace Reindent
namespace Layout

/-! ## Documents whose blocks are closed -/

/-- Behind every opening marker the next marker closes its block. -/
def BlocksClosed : List Text → Prop
  | [] => True
  | line :: rest =>
    (∀ block, marker? line = some (.opens block) →
      rest.findSome? marker? = some (.closes block)) ∧ BlocksClosed rest

instance decidableBlocksClosed : DecidablePred BlocksClosed
  | [] => .isTrue trivial
  | line :: rest =>
    have := decidableBlocksClosed rest
    inferInstanceAs (Decidable ((∀ block, marker? line = some (.opens block) →
      rest.findSome? marker? = some (.closes block)) ∧ BlocksClosed rest))

theorem BlocksClosed.of_append
    {lines more : List Text} (h : BlocksClosed (lines ++ more)) :
    BlocksClosed more := by
  induction lines with
  | nil => exact h
  | cons line lines ih => exact ih h.2

/-- The lines with the body of every block reduced to its kept lines.  The body of a block goes up
to the next marker. -/
def tidied : List Text → List Text
  | [] => []
  | line :: rest =>
    match marker? line with
    | some (.opens _) =>
      line :: (kept (rest.takeWhile fun l => (marker? l).isNone) ++
        tidied (rest.dropWhile fun l => (marker? l).isNone))
    | _ => line :: tidied rest
  termination_by lines => lines.length
  decreasing_by
    · exact Nat.lt_succ_of_le (List.dropWhile_sublist _).length_le
    · simp

theorem tidied_nil : tidied [] = [] := by
  rw [tidied]

theorem tidied_cons
    {line : Text} (hline : ∀ block, marker? line ≠ some (.opens block)) (rest : List Text) :
    tidied (line :: rest) = line :: tidied rest := by
  rw [tidied]
  split
  · next block hmarker => exact absurd hmarker (hline block)
  · rfl

/-- A whole block: its markers stay, and its body is reduced. -/
theorem tidied_block
    {opener closer : Text} {block : Block} {body : List Text}
    (hopener : marker? opener = some (.opens block))
    (hbody : ∀ line ∈ body, marker? line = none)
    (hcloser : marker? closer = some (.closes block)) (rest : List Text) :
    tidied (opener :: (body ++ closer :: rest)) =
      opener :: (kept body ++ closer :: tidied rest) := by
  have hplain : ∀ line ∈ body, (marker? line).isNone = true := by
    intro line hline
    rw [hbody line hline, Option.isNone_none]
  have hstop : (marker? closer).isNone = false := by
    rw [hcloser, Option.isNone_some]
  have htail : tidied (closer :: rest) = closer :: tidied rest := by
    apply tidied_cons
    intro other
    rw [hcloser]
    simp
  rw [tidied, hopener]
  simp only [List.takeWhile_append_of_pos hplain, List.dropWhile_append_of_pos hplain]
  rw [List.takeWhile_cons_of_neg (by simp [hstop]), List.dropWhile_cons_of_neg (by simp [hstop]),
    List.append_nil, htail]

/-- From the markup, closed blocks leave with reduced bodies and all other lines as they are. -/
theorem flow_eq_tidied
    {st : State} (hst : st.Tidy) (hregion : st.region = .markup)
    {lines : List Text} (hclosed : BlocksClosed lines) :
    flow st lines = tidied lines := by
  induction hn : lines.length using Nat.strong_induction_on generalizing st lines with
  | _ n ih =>
  cases lines with
  | nil => rw [flow_nil, tidied_nil]
  | cons line rest =>
      have hempty : ∀ block, (st.held block).lines = [] := by
        intro block
        exact hst block (by simp [hregion])
      rw [List.length_cons] at hn
      cases st.turn line with
      | opens block hmarker =>
          -- The block is taken as a whole, and the induction goes on behind its closing marker.
          obtain ⟨body, closer, tail, rfl, hcloser, hbody⟩ :=
            List.findSome?_eq_some_iff.mp (hclosed.1 block hmarker)
          have hinside : ((st.enter block).holdAll block body).Tidy :=
            (State.Tidy.enter fun other _ => hempty other).holdAll
              (State.region_enter st block) body
          have hleave : (((st.enter block).holdAll block body).leave block).Tidy := by
            apply State.Tidy.leave
            intro other hne
            exact hinside other (by simp [hne.symm])
          have htail := ih tail.length (by simp at hn; omega) hleave (State.region_leave _ _)
            hclosed.2.of_append.2 rfl
          rw [flow_cons_of_opens hmarker,
            flow_append_of_inside (State.region_enter st block) hbody,
            flow_cons_of_closes hcloser, htail, tidied_block hmarker hbody hcloser]
          simp
      | closes block hmarker =>
          have hleave : (st.leave block).Tidy := State.Tidy.leave fun other _ => hempty other
          have hrest := ih rest.length (by omega) hleave (State.region_leave _ _) hclosed.2 rfl
          rw [flow_cons_of_closes hmarker, hrest, hempty block, kept_nil, List.nil_append,
            tidied_cons (by simp [hmarker])]
      | held block hmarker hinside =>
          rw [hregion] at hinside
          cases hinside
      | markup hmarker _ =>
          have hrest := ih rest.length (by omega) (hst.next_of_markup hmarker hregion)
            (State.region_next_of_markup hmarker hregion) hclosed.2 rfl
          rw [flow_cons_of_markup hmarker hregion, hrest, tidied_cons (by simp [hmarker])]

/-- A document whose blocks are closed keeps its lines in their order; only the bodies of its
blocks are reduced. -/
theorem map_trim_lines_format_eq_tidied
    {unit text : Text} (hunit : Text.IsIndent unit)
    (hclosed : BlocksClosed (trimmedLines text)) :
    (format unit text).lines.map Text.trim = tidied (trimmedLines text) := by
  rw [map_trim_lines_format hunit]
  exact flow_eq_tidied State.tidy_initial rfl hclosed

/-- A script whose empty lines go, a stray closing marker, and a style sheet whose empty lines
stay. -/
def twoBlocks : Text :=
  Text.unlines (["\uFEFF<p>", "<script>", "", " a(", " b", "", " </script>", "", "</style>",
    "<style>", "", ".x \x7b", "", "\x7d", "</style>"].map String.toList)

theorem map_trim_lines_format_twoBlocks :
    Text.IsIndent [' ', ' '] ∧ BlocksClosed (trimmedLines twoBlocks) ∧
      (format [' ', ' '] twoBlocks).lines.map Text.trim =
        ["<p>", "<script>", "a(", "b", "</script>", "", "</style>", "<style>", "", ".x \x7b", "",
          "\x7d", "</style>"].map String.toList := by
  have hunit : Text.IsIndent [' ', ' '] := by decide
  have hclosed : BlocksClosed (trimmedLines twoBlocks) := by decide
  refine ⟨hunit, hclosed, ?_⟩
  rw [map_trim_lines_format_eq_tidied hunit hclosed]
  decide +kernel

/-! ## The balance of the lines -/

namespace State

/-- The lines given up when a line comes in: those held back for a block that it opens. -/
def givenUp (st : State) (line : Text) : List Text :=
  match marker? line with
  | some (.opens block) => (st.held block).lines
  | _ => []

end State

/-- The lines given up from a state on, with those still held back at the end. -/
def discarded (st : State) (lines : List Text) : List Text :=
  collect State.givenUp st lines ++ (st.after lines).pending

theorem discarded_nil (st : State) :
    discarded st [] = st.pending := rfl

theorem discarded_cons (st : State) (line : Text) (rest : List Text) :
    discarded st (line :: rest) = st.givenUp line ++ discarded (st.next line) rest := by
  rw [discarded, collect, State.after_cons, List.append_assoc, discarded]

/-- The lines that are not empty, whatever their order. -/
def nonblank (lines : List Text) : Multiset Text :=
  ↑(lines.filter fun line => !line.isEmpty)

theorem nonblank_nil : nonblank [] = 0 := rfl

theorem nonblank_append (lines more : List Text) :
    nonblank (lines ++ more) = nonblank lines + nonblank more := by
  rw [nonblank, List.filter_append, ← Multiset.coe_add, nonblank, nonblank]

theorem nonblank_kept (body : List Text) :
    nonblank (kept body) = nonblank body := by
  rw [nonblank, filter_kept, nonblank]

theorem nonblank_eq_zero_iff (lines : List Text) :
    nonblank lines = 0 ↔ ∀ line ∈ lines, line = [] := by
  simp [nonblank, List.filter_eq_nil_iff]

theorem nonblank_perm {lines more : List Text} (h : lines.Perm more) :
    nonblank lines = nonblank more :=
  Multiset.coe_eq_coe.mpr (h.filter _)

/-- One line: what was pending and the line itself is written, given up or pending. -/
theorem nonblank_step (st : State) (line : Text) :
    nonblank st.pending + nonblank [line] =
      nonblank (st.passed line) + nonblank (st.givenUp line) +
        nonblank (st.next line).pending := by
  cases st.turn line with
  | opens block hmarker =>
      rw [State.passed_of_opens hmarker, State.next_of_opens hmarker, State.pending_enter,
        nonblank_perm (st.pending_perm block), nonblank_append]
      simp only [State.givenUp, hmarker]
      abel
  | closes block hmarker =>
      rw [State.passed_of_closes hmarker, State.next_of_closes hmarker, State.pending_leave,
        nonblank_perm (st.pending_perm block), nonblank_append, nonblank_append, nonblank_kept]
      simp only [State.givenUp, hmarker, nonblank_nil]
      abel
  | held block hmarker hregion =>
      rw [State.passed_of_held hmarker hregion, State.next_of_held hmarker hregion,
        nonblank_perm (st.pending_holdAll_perm block [line]), nonblank_append]
      simp only [State.givenUp, hmarker, nonblank_nil]
      abel
  | markup hmarker hregion =>
      rw [State.passed_of_markup hmarker hregion, State.pending_next_of_markup hmarker hregion]
      simp only [State.givenUp, hmarker, nonblank_nil]
      abel

/-- Along a run nothing is lost but what is given up. -/
theorem nonblank_flow (st : State) (lines : List Text) :
    nonblank st.pending + nonblank lines =
      nonblank (flow st lines) + nonblank (discarded st lines) := by
  induction lines generalizing st with
  | nil =>
      rw [flow_nil, discarded_nil]
      abel
  | cons line rest ih =>
      calc
        nonblank st.pending + nonblank (line :: rest) =
            nonblank st.pending + nonblank [line] + nonblank rest := by
          rw [← List.singleton_append, nonblank_append, add_assoc]
        _ = nonblank (st.passed line) + nonblank (st.givenUp line) +
              (nonblank (st.next line).pending + nonblank rest) := by
          rw [nonblank_step, add_assoc]
        _ = nonblank (st.passed line) + nonblank (st.givenUp line) +
              (nonblank (flow (st.next line) rest) +
                nonblank (discarded (st.next line) rest)) := by
          rw [ih]
        _ = nonblank (flow st (line :: rest)) + nonblank (discarded st (line :: rest)) := by
          rw [flow_cons, discarded_cons, nonblank_append, nonblank_append]
          abel

/-- Every line that is not empty is written or given up, and none is lost exactly when all lines
given up are empty. -/
theorem nonblank_trimmedLines_eq_add_discarded
    {unit : Text} (hunit : Text.IsIndent unit) (text : Text) :
    nonblank (trimmedLines text) =
        nonblank ((format unit text).lines.map Text.trim) +
          nonblank (discarded {} (trimmedLines text)) ∧
      (nonblank (trimmedLines text) = nonblank ((format unit text).lines.map Text.trim) ↔
        ∀ line ∈ discarded {} (trimmedLines text), line = []) := by
  have hbalance : nonblank (trimmedLines text) =
      nonblank ((format unit text).lines.map Text.trim) +
        nonblank (discarded {} (trimmedLines text)) := by
    rw [map_trim_lines_format hunit, ← nonblank_flow]
    exact (zero_add _).symm
  refine ⟨hbalance, ?_⟩
  rw [← nonblank_eq_zero_iff]
  constructor
  · intro hkept
    rw [hkept] at hbalance
    exact left_eq_add.mp hbalance
  · intro hnone
    rw [hbalance, hnone, add_zero]

/-- The style sheet closes inside the script, which is opened again and never closed. -/
def interleaved : Text :=
  Text.unlines (["<style>", " a", "<script>", " b", "</style>", "c", "<script>",
    "d"].map String.toList)

theorem nonblank_trimmedLines_interleaved :
    Text.IsIndent tab ∧ discarded {} (trimmedLines interleaved) = [['b'], ['d']] ∧
      nonblank (trimmedLines interleaved) =
        nonblank ((format tab interleaved).lines.map Text.trim) + {['b'], ['d']} := by
  have hunit : Text.IsIndent tab := by decide
  have hdiscarded : discarded {} (trimmedLines interleaved) = [['b'], ['d']] := by decide
  refine ⟨hunit, hdiscarded, ?_⟩
  rw [(nonblank_trimmedLines_eq_add_discarded hunit interleaved).1, hdiscarded]
  rfl

end Layout
end Reindent
