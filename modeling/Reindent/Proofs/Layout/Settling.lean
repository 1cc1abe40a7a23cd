import Mathlib.Data.Finset.Lattice.Fold
import Mathlib.Data.Prod.Lex
import Mathlib.Logic.Function.Iterate
import Reindent.Proofs.Layout.Flow

/-!
# Repeated layout settles

One layout of a text with mixed blocks is not the last word: lines wait for a later closing marker
and the next layout may move them again, drop empty lines of the new body or remove another
byte-order mark.  Each layout that changes the trimmed lines of a text lowers a rank, though.
First comes the size of the lines; if it stays the same, no line was lost.  Then come the pairs of
a line and a marker behind it: lines only ever move behind markers, never before them.

For the induction a state and the lines to come stand for the document that begins with the
pending lines, and the flow is compared with this document.
-/

namespace Reindent
namespace Layout

/-! ## The size of lines -/

/-- The number of characters of the lines, where each line counts one more. -/
def load : List Text → ℕ
  | [] => 0
  | line :: rest => line.length + 1 + load rest

theorem load_nil : load [] = 0 := rfl

theorem load_cons (line : Text) (rest : List Text) :
    load (line :: rest) = line.length + 1 + load rest := rfl

theorem load_append (lines more : List Text) :
    load (lines ++ more) = load lines + load more := by
  induction lines with
  | nil => exact (Nat.zero_add _).symm
  | cons line rest ih =>
      rw [List.cons_append, load_cons, load_cons, ih]
      omega

theorem load_perm {lines more : List Text} (h : lines.Perm more) :
    load lines = load more := by
  induction h with
  | nil => rfl
  | cons line _ ih => rw [load_cons, load_cons, ih]
  | swap line line' rest =>
      rw [load_cons, load_cons, load_cons, load_cons]
      omega
  | trans _ _ ih ih' => exact ih.trans ih'

theorem load_le_of_sublist {lines more : List Text} (h : lines.Sublist more) :
    load lines ≤ load more := by
  induction h with
  | slnil => exact le_refl _
  | cons line _ ih =>
      rw [load_cons]
      omega
  | cons_cons line _ ih =>
      rw [load_cons, load_cons]
      omega

theorem load_lt_of_sublist
    {lines more : List Text} (h : lines.Sublist more) (hne : lines ≠ more) :
    load lines < load more := by
  induction h with
  | slnil => exact absurd rfl hne
  | cons line h _ =>
      have hle := load_le_of_sublist h
      rw [load_cons]
      omega
  | cons_cons line _ ih =>
      have hlt := ih fun heq => hne (congrArg _ heq)
      rw [load_cons, load_cons]
      omega

theorem load_nil_lt {lines : List Text} (hne : lines ≠ []) :
    load [] < load lines :=
  load_lt_of_sublist (List.nil_sublist lines) hne.symm

theorem load_pending (st : State) (block : Block) :
    load st.pending = load (st.held block).lines + load (st.held block.other).lines := by
  rw [load_perm (st.pending_perm block), load_append]

theorem length_pending (st : State) (block : Block) :
    st.pending.length =
      (st.held block).lines.length + (st.held block.other).lines.length := by
  rw [(st.pending_perm block).length_eq, List.length_append]

/-! ## Lines ahead of markers -/

/-- For every marker the lines ahead of it that are no markers, where `count` such lines come before
the list. -/
def ahead : ℕ → List Text → ℕ
  | _, [] => 0
  | count, line :: rest =>
    match marker? line with
    | some _ => count + ahead count rest
    | none => ahead (count + 1) rest

theorem ahead_cons_of_marker
    {line : Text} {marker : Marker} (hmarker : marker? line = some marker)
    (count : ℕ) (rest : List Text) :
    ahead count (line :: rest) = count + ahead count rest := by
  simp [ahead, hmarker]

theorem ahead_cons_of_plain
    {line : Text} (hmarker : marker? line = none) (count : ℕ) (rest : List Text) :
    ahead count (line :: rest) = ahead (count + 1) rest := by
  simp [ahead, hmarker]

theorem ahead_append_of_plain
    {body : List Text} (hbody : ∀ line ∈ body, marker? line = none)
    (count : ℕ) (rest : List Text) :
    ahead count (body ++ rest) = ahead (count + body.length) rest := by
  induction body generalizing count with
  | nil => rfl
  | cons line body ih =>
      have hline : marker? line = none := hbody line List.mem_cons_self
      rw [List.cons_append, ahead_cons_of_plain hline,
        ih fun l hl => hbody l (List.mem_cons_of_mem _ hl), List.length_cons]
      congr 1
      omega

theorem ahead_mono
    {count more : ℕ} (hle : count ≤ more) (lines : List Text) :
    ahead count lines ≤ ahead more lines := by
  induction lines generalizing count more with
  | nil => exact le_refl _
  | cons line rest ih =>
      cases hmarker : marker? line with
      | none =>
          rw [ahead_cons_of_plain hmarker, ahead_cons_of_plain hmarker]
          exact ih (Nat.add_le_add_right hle 1)
      | some marker =>
          rw [ahead_cons_of_marker hmarker, ahead_cons_of_marker hmarker]
          exact Nat.add_le_add hle (ih hle)

/-! ## The rank of a document -/

/-- The size of the lines, and then how many lines stand ahead of markers. -/
def rank (count : ℕ) (lines : List Text) : ℕ ×ₗ ℕ :=
  toLex (load lines, ahead count lines)

theorem rank_lt_iff
    {count : ℕ} {lines more : List Text} :
    rank count lines < rank count more ↔
      load lines < load more ∨ load lines = load more ∧ ahead count lines < ahead count more :=
  Prod.Lex.toLex_lt_toLex

theorem rank_lt_of_load_lt
    {lines more : List Text} (hload : load lines < load more) (count : ℕ) :
    rank count lines < rank count more :=
  rank_lt_iff.mpr (Or.inl hload)

theorem rank_lt_of_ahead_lt
    {count : ℕ} {lines more : List Text} (hload : load lines ≤ load more)
    (hahead : ahead count lines < ahead count more) :
    rank count lines < rank count more := by
  rcases Nat.lt_or_eq_of_le hload with hlt | heq
  · exact rank_lt_of_load_lt hlt count
  · exact rank_lt_iff.mpr (Or.inr ⟨heq, hahead⟩)

theorem rank_cons_lt_of_marker
    {line : Text} {marker : Marker} (hmarker : marker? line = some marker)
    {count : ℕ} {lines more : List Text} (h : rank count lines < rank count more) :
    rank count (line :: lines) < rank count (line :: more) := by
  rw [rank_lt_iff] at h ⊢
  rw [load_cons, load_cons, ahead_cons_of_marker hmarker, ahead_cons_of_marker hmarker]
  omega

theorem rank_cons_lt_of_plain
    {line : Text} (hmarker : marker? line = none)
    {count : ℕ} {lines more : List Text} (h : rank (count + 1) lines < rank (count + 1) more) :
    rank count (line :: lines) < rank count (line :: more) := by
  rw [rank_lt_iff] at h ⊢
  rw [load_cons, load_cons, ahead_cons_of_plain hmarker, ahead_cons_of_plain hmarker]
  omega

theorem rank_append_lt_of_plain
    {body : List Text} (hbody : ∀ line ∈ body, marker? line = none)
    {count : ℕ} {lines more : List Text}
    (h : rank (count + body.length) lines < rank (count + body.length) more) :
    rank count (body ++ lines) < rank count (body ++ more) := by
  rw [rank_lt_iff] at h ⊢
  rw [load_append, load_append, ahead_append_of_plain hbody, ahead_append_of_plain hbody]
  omega

/-! ## The rank of a flow -/

/-- One line never adds to the size of what is written and pending. -/
theorem load_step (st : State) (line : Text) :
    load (st.passed line) + load (st.next line).pending ≤ load st.pending + load [line] := by
  cases st.turn line with
  | opens block hmarker =>
      rw [State.passed_of_opens hmarker, State.next_of_opens hmarker, State.pending_enter,
        load_pending st block]
      omega
  | closes block hmarker =>
      have hkept := load_le_of_sublist (kept_sublist (st.held block).lines)
      rw [State.passed_of_closes hmarker, State.next_of_closes hmarker, State.pending_leave,
        load_pending st block, load_append]
      omega
  | held block hmarker hregion =>
      rw [State.passed_of_held hmarker hregion, State.next_of_held hmarker hregion,
        load_perm (st.pending_holdAll_perm block [line]), load_append, load_nil]
      omega
  | markup hmarker hregion =>
      rw [State.passed_of_markup hmarker hregion, State.pending_next_of_markup hmarker hregion]
      omega

theorem load_flow_le (st : State) (lines : List Text) :
    load (flow st lines) ≤ load (st.pending ++ lines) := by
  rw [load_append]
  induction lines generalizing st with
  | nil =>
      rw [flow_nil, load_nil]
      omega
  | cons line rest ih =>
      have hstep := load_step st line
      have hrest := ih (st.next line)
      rw [load_cons, load_nil] at hstep
      rw [flow_cons, load_append, load_cons]
      omega

/-- An opening marker passes all pending lines, and these do not become more. -/
theorem ahead_flow_add_le_of_opens
    {st : State} {line : Text} {rest : List Text} {block : Block} {count : ℕ}
    (hmarker : marker? line = some (.opens block))
    (hflow : ahead count (flow (st.enter block) rest) ≤
      ahead (count + (st.enter block).pending.length) rest) :
    ahead count (flow st (line :: rest)) + st.pending.length ≤
      ahead (count + st.pending.length) (line :: rest) := by
  have hcount : count + (st.enter block).pending.length ≤ count + st.pending.length := by
    rw [State.pending_enter, length_pending st block]
    omega
  have hmono := ahead_mono hcount rest
  rw [flow_cons_of_opens hmarker, ahead_cons_of_marker hmarker, ahead_cons_of_marker hmarker]
  omega

/-- A closing marker passes the lines pending for the other block. -/
theorem ahead_flow_add_le_of_closes
    {st : State} (hst : st.WellHeld) {line : Text} {rest : List Text} {block : Block} {count : ℕ}
    (hmarker : marker? line = some (.closes block))
    (hflow : ∀ more, ahead more (flow (st.leave block) rest) ≤
      ahead (more + (st.leave block).pending.length) rest) :
    ahead count (flow st (line :: rest)) + (st.held block.other).lines.length ≤
      ahead (count + st.pending.length) (line :: rest) := by
  have hkept := (kept_sublist (st.held block).lines).length_le
  have hlength := length_pending st block
  have hcount : count + (kept (st.held block).lines).length + (st.leave block).pending.length ≤
      count + st.pending.length := by
    rw [State.pending_leave]
    omega
  have hmono := ahead_mono hcount rest
  have hrest := hflow (count + (kept (st.held block).lines).length)
  rw [flow_cons_of_closes hmarker, ahead_append_of_plain (hst.marker?_of_mem_kept block),
    ahead_cons_of_marker hmarker, ahead_cons_of_marker hmarker]
  omega

/-- No line moves ahead of a marker. -/
theorem ahead_flow_le
    {st : State} (hst : st.WellHeld) {lines : List Text}
    (hlines : ∀ line ∈ lines, line.IsTrimmed) (count : ℕ) :
    ahead count (flow st lines) ≤ ahead (count + st.pending.length) lines := by
  induction lines generalizing st count with
  | nil => exact Nat.zero_le _
  | cons line rest ih =>
      obtain ⟨hline, hrest⟩ := List.forall_mem_cons.mp hlines
      have hflow := ih (hst.next hline) hrest
      cases st.turn line with
      | opens block hmarker =>
          rw [State.next_of_opens hmarker] at hflow
          exact le_trans (Nat.le_add_right _ _) (ahead_flow_add_le_of_opens hmarker (hflow count))
      | closes block hmarker =>
          rw [State.next_of_closes hmarker] at hflow
          exact le_trans (Nat.le_add_right _ _) (ahead_flow_add_le_of_closes hst hmarker hflow)
      | held block hmarker hregion =>
          have hcount : (st.holdAll block [line]).pending.length = st.pending.length + 1 := by
            rw [(st.pending_holdAll_perm block [line]).length_eq, List.length_append,
              List.length_singleton]
          have hheld := hflow count
          rw [State.next_of_held hmarker hregion, hcount] at hheld
          rw [flow_cons_of_held hmarker hregion, ahead_cons_of_plain hmarker]
          exact hheld
      | markup hmarker hregion =>
          have hmarkup := hflow (count + 1)
          rw [State.pending_next_of_markup hmarker hregion] at hmarkup
          rw [flow_cons_of_markup hmarker hregion, ahead_cons_of_plain hmarker,
            ahead_cons_of_plain hmarker, add_right_comm]
          exact hmarkup

/-! ## A flow that changes the document has a lower rank -/

theorem rank_flow_lt_of_opens
    {st : State} (hst : st.WellHeld) {line : Text} {rest : List Text}
    (hlines : ∀ l ∈ line :: rest, l.IsTrimmed) {block : Block}
    (hmarker : marker? line = some (.opens block)) (hpending : st.pending ≠ []) (count : ℕ) :
    rank count (flow st (line :: rest)) < rank count (st.pending ++ line :: rest) := by
  obtain ⟨hline, hrest⟩ := List.forall_mem_cons.mp hlines
  have hpos : 0 < st.pending.length := List.length_pos_iff.mpr hpending
  have hflow := ahead_flow_le (hst.next hline) hrest count
  rw [State.next_of_opens hmarker] at hflow
  have hpassed := ahead_flow_add_le_of_opens hmarker hflow
  apply rank_lt_of_ahead_lt (load_flow_le st (line :: rest))
  rw [ahead_append_of_plain hst.marker?_of_mem_pending]
  omega

theorem rank_flow_lt_of_closes
    {st : State} (hst : st.WellHeld) {line : Text} {rest : List Text}
    (hlines : ∀ l ∈ line :: rest, l.IsTrimmed) {block : Block}
    (hmarker : marker? line = some (.closes block))
    (hother : (st.held block.other).lines ≠ []) (count : ℕ) :
    rank count (flow st (line :: rest)) < rank count (st.pending ++ line :: rest) := by
  obtain ⟨hline, hrest⟩ := List.forall_mem_cons.mp hlines
  have hpos : 0 < (st.held block.other).lines.length := List.length_pos_iff.mpr hother
  have hflow := ahead_flow_le (hst.next hline) hrest
  rw [State.next_of_closes hmarker] at hflow
  have hpassed : ahead count (flow st (line :: rest)) + (st.held block.other).lines.length ≤
      ahead (count + st.pending.length) (line :: rest) :=
    ahead_flow_add_le_of_closes hst hmarker hflow
  apply rank_lt_of_ahead_lt (load_flow_le st (line :: rest))
  rw [ahead_append_of_plain hst.marker?_of_mem_pending]
  omega

/-- A block that is closed with nothing pending for the other one leaves as it was, or smaller. -/
theorem flow_closes_eq_or_rank_lt
    {st : State} (hst : st.WellHeld) {line : Text} {rest : List Text} {block : Block}
    (hmarker : marker? line = some (.closes block))
    (hother : (st.held block.other).lines = []) {count : ℕ}
    (hrest : flow (st.leave block) rest = rest ∨
      rank (count + st.pending.length) (flow (st.leave block) rest) <
        rank (count + st.pending.length) rest) :
    flow st (line :: rest) = st.pending ++ line :: rest ∨
      rank count (flow st (line :: rest)) < rank count (st.pending ++ line :: rest) := by
  have hpending : st.pending = (st.held block).lines := State.pending_eq_of_other_nil hother
  have hflow : flow st (line :: rest) =
      kept st.pending ++ line :: flow (st.leave block) rest := by
    rw [flow_cons_of_closes hmarker, hpending]
  rw [hflow]
  by_cases hkept : kept st.pending = st.pending
  · rw [hkept]
    rcases hrest with heq | hlt
    · left
      rw [heq]
    · right
      exact rank_append_lt_of_plain hst.marker?_of_mem_pending
        (rank_cons_lt_of_marker hmarker hlt)
  · right
    apply rank_lt_of_load_lt
    have hsmaller := load_lt_of_sublist (kept_sublist st.pending) hkept
    have hle := load_flow_le (st.leave block) rest
    rw [State.pending_leave, hother, List.nil_append] at hle
    rw [load_append, load_append, load_cons, load_cons]
    omega

/-- From a tidy state, the flow is the document itself or has a lower rank. -/
theorem flow_eq_or_rank_lt
    {st : State} (htidy : st.Tidy) (hst : st.WellHeld) {lines : List Text}
    (hlines : ∀ line ∈ lines, line.IsTrimmed) (count : ℕ) :
    flow st lines = st.pending ++ lines ∨
      rank count (flow st lines) < rank count (st.pending ++ lines) := by
  induction lines generalizing st count with
  | nil =>
      rw [flow_nil, List.append_nil]
      by_cases hpending : st.pending = []
      · left
        rw [hpending]
      · right
        exact rank_lt_of_load_lt (load_nil_lt hpending) count
  | cons line rest ih =>
      obtain ⟨hline, hrest⟩ := List.forall_mem_cons.mp hlines
      have hnext : (st.next line).WellHeld := hst.next hline
      cases st.turn line with
      | opens block hmarker =>
          -- Pending lines would be passed by the marker, so the induction goes on without any.
          by_cases hpending : st.pending = []
          · have hempty := State.lines_eq_nil_of_pending hpending
            rw [State.next_of_opens hmarker] at hnext
            have hflow := ih (State.Tidy.enter fun other _ => hempty other) hnext hrest count
            rw [State.pending_enter, hempty, List.nil_append] at hflow
            rw [flow_cons_of_opens hmarker, hpending, List.nil_append]
            rcases hflow with heq | hlt
            · left
              rw [heq]
            · right
              exact rank_cons_lt_of_marker hmarker hlt
          · right
            exact rank_flow_lt_of_opens hst hlines hmarker hpending count
      | closes block hmarker =>
          by_cases hother : (st.held block.other).lines = []
          · have hleave : (st.leave block).Tidy := by
              apply State.Tidy.leave
              intro other hne
              rw [Block.eq_other_of_ne hne]
              exact hother
            rw [State.next_of_closes hmarker] at hnext
            have hflow := ih hleave hnext hrest (count + st.pending.length)
            rw [State.pending_leave, hother, List.nil_append] at hflow
            exact flow_closes_eq_or_rank_lt hst hmarker hother hflow
          · right
            exact rank_flow_lt_of_closes hst hlines hmarker hother count
      | held block hmarker hregion =>
          have hhold := htidy.holdAll hregion [line]
          have hpending : (st.holdAll block [line]).pending = st.pending ++ [line] := by
            rw [hhold.pending_eq (by rw [State.region_holdAll, hregion]), htidy.pending_eq hregion,
              State.held_holdAll, if_pos rfl]
          rw [State.next_of_held hmarker hregion] at hnext
          have hflow := ih hhold hnext hrest count
          rw [hpending, List.append_assoc, List.singleton_append] at hflow
          rw [flow_cons_of_held hmarker hregion]
          exact hflow
      | markup hmarker hregion =>
          have hflow := ih (htidy.next_of_markup hmarker hregion) hnext hrest (count + 1)
          rw [State.pending_next_of_markup hmarker hregion, htidy.pending_eq_nil hregion,
            List.nil_append] at hflow
          rw [flow_cons_of_markup hmarker hregion, htidy.pending_eq_nil hregion, List.nil_append]
          rcases hflow with heq | hlt
          · left
            rw [heq]
          · right
            exact rank_cons_lt_of_plain hmarker hlt

/-! ## Repeating the layout -/

/-- Dropping a leading mark makes the first line shorter. -/
theorem trimmedLines_eq_or_load_lt (text : Text) :
    trimmedLines text = text.lines.map Text.trim ∨
      load (trimmedLines text) < load (text.lines.map Text.trim) := by
  cases text with
  | nil => exact Or.inl rfl
  | cons c cs =>
      by_cases hc : c = Text.byteOrderMark
      · right
        subst hc
        obtain ⟨first, rest, htrimmed, hlines⟩ := exists_first_line_of_mark cs
        have hfirst := Text.length_trim_le_trimEnd first
        rw [htrimmed, hlines, load_cons, load_cons, List.length_cons]
        omega
      · left
        exact trimmedLines_cons_of_ne_mark hc cs

/-- A layout leaves the trimmed lines of a text alone or lowers their rank. -/
theorem trimmedLines_format_eq_or_rank_lt
    {unit : Text} (hunit : Text.IsIndent unit) (text : Text) :
    trimmedLines (format unit text) = trimmedLines text ∨
      rank 0 (trimmedLines (format unit text)) < rank 0 (trimmedLines text) := by
  have hflow := flow_eq_or_rank_lt State.tidy_initial State.wellHeld_initial
    (fun _ hline => isTrimmed_of_mem_trimmedLines hline : ∀ l ∈ trimmedLines text, _) 0
  have hload := load_flow_le {} (trimmedLines text)
  have hread := trimmedLines_eq_or_load_lt (format unit text)
  rw [map_trim_lines_format hunit] at hread
  rcases hread with heq | hlt
  · rw [heq]
    exact hflow
  · right
    exact rank_lt_of_load_lt (lt_of_lt_of_le hlt hload) 0

theorem exists_trimmedLines_iterate_eq
    {unit : Text} (hunit : Text.IsIndent unit) (text : Text) :
    ∃ n, trimmedLines ((format unit)^[n + 1] text) = trimmedLines ((format unit)^[n] text) := by
  induction hrank : rank 0 (trimmedLines text) using WellFoundedLT.induction generalizing text with
  | _ _ ih =>
  rcases trimmedLines_format_eq_or_rank_lt hunit text with heq | hlt
  · exact ⟨0, heq⟩
  · rw [hrank] at hlt
    obtain ⟨n, hn⟩ := ih _ hlt (format unit text) rfl
    exact ⟨n + 1, hn⟩

theorem exists_format_iterate_fixed
    {unit : Text} (hunit : Text.IsIndent unit) (text : Text) :
    ∃ n, format unit ((format unit)^[n] text) = (format unit)^[n] text := by
  obtain ⟨n, hn⟩ := exists_trimmedLines_iterate_eq hunit text
  refine ⟨n + 1, ?_⟩
  calc
    format unit ((format unit)^[n + 1] text) =
        Text.unlines (run unit {} (trimmedLines ((format unit)^[n + 1] text))) := rfl
    _ = Text.unlines (run unit {} (trimmedLines ((format unit)^[n] text))) := by rw [hn]
    _ = format unit ((format unit)^[n] text) := rfl
    _ = (format unit)^[n + 1] text := (Function.iterate_succ_apply' _ _ _).symm

/-- Repeated layout settles on a text that it leaves alone.  So it never comes back to a text that
it changes, and the texts on the way are of bounded length. -/
theorem format_iterate_settles
    {unit : Text} (hunit : Text.IsIndent unit) (text : Text) :
    (∃ n, (format unit)^[n + 1] text = (format unit)^[n] text ∧
      ∀ m, n ≤ m → (format unit)^[m] text = (format unit)^[n] text) ∧
    (∀ p, 0 < p → (format unit)^[p] text = text → format unit text = text) ∧
    ∃ bound, ∀ m, ((format unit)^[m] text).length ≤ bound := by
  obtain ⟨n, hfixed⟩ := exists_format_iterate_fixed hunit text
  have hsettled : ∀ m, n ≤ m → (format unit)^[m] text = (format unit)^[n] text := by
    intro m hnm
    obtain ⟨k, rfl⟩ := Nat.exists_eq_add_of_le' hnm
    rw [Function.iterate_add_apply, Function.iterate_fixed hfixed]
  refine ⟨⟨n, hsettled (n + 1) (Nat.le_succ n), hsettled⟩, ?_, ?_⟩
  · intro p hp hperiod
    have hback : (format unit)^[n] text = text := by
      rw [← hsettled (p * n) (Nat.le_mul_of_pos_left n hp), Function.iterate_mul]
      exact Function.iterate_fixed hperiod n
    rw [hback] at hfixed
    exact hfixed
  · refine ⟨(Finset.range (n + 1)).sup fun m => ((format unit)^[m] text).length, ?_⟩
    intro m
    rcases le_total m n with hmn | hnm
    · exact Finset.le_sup (f := fun m => ((format unit)^[m] text).length)
        (Finset.mem_range.mpr (Nat.lt_succ_of_le hmn))
    · rw [hsettled m hnm]
      exact Finset.le_sup (f := fun m => ((format unit)^[m] text).length)
        (Finset.mem_range.mpr (Nat.lt_succ_self n))

/-- Two marks hide an opening marker of mixed blocks. -/
def hiddenStyle : Text :=
  Text.unlines (["\uFEFF\uFEFF<style>", "a", "<script>", "b", "</style>", "c",
    "</script>"].map String.toList)

/-- The third layout still changes the text. -/
theorem format_iterate_hiddenStyle :
    Text.IsIndent tab ∧ (format tab)^[3] hiddenStyle ≠ (format tab)^[2] hiddenStyle ∧
      ∃ n, (format tab)^[n + 1] hiddenStyle = (format tab)^[n] hiddenStyle := by
  have hunit : Text.IsIndent tab := by decide
  obtain ⟨n, hn, -⟩ := (format_iterate_settles hunit hiddenStyle).1
  exact ⟨hunit, by decide +kernel, n, hn⟩

end Layout
end Reindent
