import Reindent.Patch.Hunk
import Mathlib.Data.List.Infix
import Mathlib.Data.List.Range

/-!
# Texts that do not differ

A list of lines compared with itself is one stretch.  The search for the longest common stretch goes
over the old lines and keeps for each of them the stretches that end there, by the new line at which
they end.  Compared with itself, a list has the same stretches in both directions, so a stretch that
ends at an earlier new line was seen before; and no stretch that ends at an old line is longer than
the one that leads to the same line in the new text.  So the longest stretch that is found first
lies at the same place on both sides, and it grows over the whole list.
-/

namespace Reindent
namespace Patch

variable {seeds : Text → Bool}

/-! ## Stretches by where they end -/

/-- How many lines that may start a stretch two lists have in common at their front. -/
def commonSeeds (seeds : Text → Bool) : List Text → List Text → ℕ
  | a :: as, b :: bs => if a = b ∧ seeds a = true then commonSeeds seeds as bs + 1 else 0
  | _, _ => 0

theorem commonSeeds_comm (as bs : List Text) :
    commonSeeds seeds as bs = commonSeeds seeds bs as := by
  induction as generalizing bs with
  | nil => cases bs <;> rfl
  | cons a as ih =>
      cases bs with
      | nil => rfl
      | cons b bs =>
          rw [commonSeeds, commonSeeds, ih bs]
          by_cases heq : a = b
          · simp [heq]
          · simp [heq, Ne.symm heq]

theorem commonSeeds_le_self (as bs : List Text) :
    commonSeeds seeds as bs ≤ commonSeeds seeds as as := by
  induction as generalizing bs with
  | nil => cases bs <;> exact Nat.zero_le _
  | cons a as ih =>
      cases bs with
      | nil => exact Nat.zero_le _
      | cons b bs =>
          rw [commonSeeds, commonSeeds]
          split
          · next hboth =>
            rw [if_pos ⟨rfl, hboth.2⟩]
            exact Nat.succ_le_succ (ih bs)
          · exact Nat.zero_le _

theorem commonSeeds_le_length (as bs : List Text) :
    commonSeeds seeds as bs ≤ as.length := by
  induction as generalizing bs with
  | nil => cases bs <;> exact Nat.zero_le _
  | cons a as ih =>
      cases bs with
      | nil => exact Nat.zero_le _
      | cons b bs =>
          rw [commonSeeds]
          split
          · exact Nat.succ_le_succ (ih bs)
          · exact Nat.zero_le _

/-- The length of the stretch that ends where the old lines, the last one first, and so many new
lines end. -/
def sizeAt (seeds : Text → Bool) (front new : List Text) (count : ℕ) : ℕ :=
  commonSeeds seeds front (new.take count).reverse

theorem sizeAt_zero (front new : List Text) :
    sizeAt seeds front new 0 = 0 := by
  cases front <;> rfl

theorem sizeAt_succ
    {new : List Text} {line y : Text} {count : ℕ} (front : List Text) (hy : new[count]? = some y) :
    sizeAt seeds (line :: front) new (count + 1) =
      if line = y ∧ seeds line = true then sizeAt seeds front new count + 1 else 0 := by
  rw [sizeAt, List.take_add_one, hy, Option.toList_some, List.reverse_append,
    List.reverse_singleton, List.singleton_append, commonSeeds, sizeAt]

/-- The stretch that ends at a new line, if there is one. -/
def ending? (seeds : Text → Bool) (front new : List Text) (place : ℕ) : Option Ending :=
  if 0 < sizeAt seeds front new (place + 1) then some (place, sizeAt seeds front new (place + 1))
  else none

/-- The stretches that end at so many new lines from one on. -/
def endingsFrom (seeds : Text → Bool) (front new : List Text) (place count : ℕ) : List Ending :=
  (List.range' place count).filterMap (ending? seeds front new)

/-- The new lines from one on that are equal to a line that may start a stretch. -/
def placesOf (seeds : Text → Bool) (line : Text) (new : List Text) (place count : ℕ) : List ℕ :=
  (List.range' place count).filter fun j => decide (new[j]? = some line) && seeds line

/-- The stretch that ends at the line before a new line, if there is one. -/
def endingBefore (seeds : Text → Bool) (front new : List Text) : ℕ → List Ending
  | 0 => []
  | place + 1 => (ending? seeds front new place).toList

theorem endingsFrom_succ (front new : List Text) (place count : ℕ) :
    endingsFrom seeds front new place (count + 1) =
      endingBefore seeds front new (place + 1) ++
        endingsFrom seeds front new (place + 1) count := by
  rw [endingsFrom, List.range'_succ, List.filterMap_cons, endingBefore, endingsFrom]
  cases ending? seeds front new place <;> rfl

theorem le_of_mem_endingsFrom
    {front new : List Text} {place count : ℕ} {e : Ending}
    (h : e ∈ endingsFrom seeds front new place count) :
    place ≤ e.1 := by
  obtain ⟨j, hj, he⟩ := List.mem_filterMap.mp h
  rw [ending?] at he
  split at he
  · rw [← Option.some.inj he]
    exact (List.mem_range'_1.mp hj).1
  · cases he

theorem placesOf_succ
    {new : List Text} {y : Text} {place : ℕ} (line : Text) (hy : new[place]? = some y) (count : ℕ) :
    placesOf seeds line new place (count + 1) =
      if line = y ∧ seeds line = true then place :: placesOf seeds line new (place + 1) count
      else placesOf seeds line new (place + 1) count := by
  have hfits : (decide (new[place]? = some line) && seeds line) = true ↔
      line = y ∧ seeds line = true := by
    rw [hy, Bool.and_eq_true, decide_eq_true_eq, Option.some.injEq, eq_comm]
  rw [placesOf, List.range'_succ, List.filter_cons, placesOf]
  by_cases h : line = y ∧ seeds line = true
  · rw [if_pos (hfits.mpr h), if_pos h]
  · rw [if_neg (mt hfits.mp h), if_neg h]

theorem le_of_mem_placesOf
    {line : Text} {new : List Text} {place count j : ℕ}
    (h : j ∈ placesOf seeds line new place count) :
    place ≤ j :=
  (List.mem_range'_1.mp (List.mem_of_mem_filter h)).1

/-! ## One row of the search -/

/-- A stretch that ends before the first place leads to none of them. -/
theorem endingHere_cons_of_lt
    {places : List ℕ} {e : Ending} {above : List Ending} (h : ∀ j ∈ places, e.1 + 1 < j) :
    endingHere places (e :: above) = endingHere places above := by
  cases places with
  | nil => rw [endingHere, endingHere]
  | cons j places =>
      rw [endingHere.eq_3, if_pos (h j List.mem_cons_self)]

theorem endingBefore_cases (seeds : Text → Bool) (front new : List Text) (place : ℕ) :
    endingBefore seeds front new place = [] ∧ sizeAt seeds front new place = 0 ∨
      ∃ index, place = index + 1 ∧
        endingBefore seeds front new place = [(index, sizeAt seeds front new place)] := by
  cases place with
  | zero => exact Or.inl ⟨rfl, sizeAt_zero front new⟩
  | succ index =>
      rw [endingBefore, ending?]
      split
      · exact Or.inr ⟨index, rfl, rfl⟩
      · next hsize => exact Or.inl ⟨rfl, Nat.eq_zero_of_not_pos hsize⟩

/-- A place with no stretch before it starts one of length one. -/
theorem endingHere_cons_of_le
    {place : ℕ} {places : List ℕ} {above : List Ending} (h : ∀ e ∈ above, place ≤ e.1) :
    endingHere (place :: places) above = (place, 1) :: endingHere places above := by
  cases above with
  | nil => rw [endingHere.eq_2]
  | cons e above =>
      have hle := h e List.mem_cons_self
      rw [endingHere.eq_3, if_neg (by omega), if_neg (by omega)]

/-- The stretches that end at an old line, from those that end at the line before it. -/
theorem endingHere_placesOf
    {new : List Text} (line : Text) (front : List Text) {place count : ℕ}
    (hcount : place + count ≤ new.length) :
    endingHere (placesOf seeds line new place count)
        (endingBefore seeds front new place ++ endingsFrom seeds front new place count) =
      endingsFrom seeds (line :: front) new place count := by
  induction count generalizing place with
  | zero => exact endingHere.eq_1 _
  | succ count ih =>
      have hlt : place < new.length := by omega
      have hy : new[place]? = some new[place] := List.getElem?_eq_getElem hlt
      have hrest := ih (show place + 1 + count ≤ new.length by omega)
      rw [← endingsFrom_succ] at hrest
      rw [endingsFrom_succ (line :: front), ← hrest, endingBefore, ending?, sizeAt_succ front hy,
        placesOf_succ line hy]
      by_cases hhit : line = new[place] ∧ seeds line = true
      · rw [if_pos hhit, if_pos hhit, if_pos (Nat.succ_pos _), Option.toList_some,
          List.singleton_append]
        rcases endingBefore_cases seeds front new place with
          ⟨hnone, hzero⟩ | ⟨index, hplace, hbefore⟩
        · rw [hnone, hzero, List.nil_append]
          exact endingHere_cons_of_le fun e he => le_of_mem_endingsFrom he
        · rw [hbefore, List.singleton_append, endingHere.eq_3, if_neg (by omega),
            if_pos hplace.symm]
      · rw [if_neg hhit, if_neg hhit, if_neg (Nat.lt_irrefl 0), Option.toList_none, List.nil_append]
        rcases endingBefore_cases seeds front new place with
          ⟨hnone, -⟩ | ⟨index, hplace, hbefore⟩
        · rw [hnone, List.nil_append]
        · rw [hbefore, List.singleton_append]
          refine endingHere_cons_of_lt fun j hj => ?_
          have hle := le_of_mem_placesOf hj
          omega

/-- The stretches that end at an old line are those of the row before, taken on by one line. -/
theorem endingHere_eq_endingsFrom (line : Text) (front new : List Text) :
    endingHere (placesOf seeds line new 0 new.length) (endingsFrom seeds front new 0 new.length) =
      endingsFrom seeds (line :: front) new 0 new.length :=
  endingHere_placesOf line front (Nat.le_of_eq (Nat.zero_add _))

theorem getD_placesFrom (line : Text) (lines : List Text) (index : ℕ) :
    (placesFrom seeds index lines).getD line [] =
      (List.range' index lines.length).filter fun j =>
        decide (lines[j - index]? = some line) && seeds line := by
  induction lines generalizing index with
  | nil => simp [placesFrom]
  | cons y rest ih =>
      have hlater : ((List.range' (index + 1) rest.length).filter fun j =>
          decide ((y :: rest)[j - index]? = some line) && seeds line) =
          (placesFrom seeds (index + 1) rest).getD line [] := by
        rw [ih]
        refine List.filter_congr fun j hj => ?_
        obtain ⟨k, rfl⟩ := Nat.exists_eq_add_of_le (List.mem_range'_1.mp hj).1
        have hj : index + 1 + k - index = k + 1 := by omega
        rw [hj, Nat.add_sub_cancel_left, List.getElem?_cons_succ]
      rw [List.length_cons, List.range'_succ, List.filter_cons, hlater, Nat.sub_self,
        List.getElem?_cons_zero, placesFrom]
      by_cases hline : y = line
      · subst hline
        cases seeds y <;> simp
      · cases seeds y <;> simp [hline, Std.HashMap.getD_insert]

theorem getD_placesFrom_zero (line : Text) (new : List Text) :
    (placesFrom seeds 0 new).getD line [] = placesOf seeds line new 0 new.length :=
  getD_placesFrom line new 0

/-! ## The longest stretch -/

theorem better_cons (index : ℕ) (best : Stretch) (e : Ending) (endings : List Ending) :
    better index best (e :: endings) =
      better index
        (if best.size < e.2 then
          { oldStart := index + 1 - e.2, newStart := e.1 + 1 - e.2, size := e.2 }
        else best) endings := rfl

theorem better_append (index : ℕ) (best : Stretch) (front back : List Ending) :
    better index best (front ++ back) = better index (better index best front) back :=
  List.foldl_append

theorem better_of_le
    {index : ℕ} {best : Stretch} {endings : List Ending} (h : ∀ e ∈ endings, e.2 ≤ best.size) :
    better index best endings = best := by
  induction endings with
  | nil => rfl
  | cons e endings ih =>
      obtain ⟨he, hrest⟩ := List.forall_mem_cons.mp h
      rw [better_cons, if_neg (Nat.not_lt.mpr he)]
      exact ih hrest

theorem mem_endingsFrom_iff
    {front new : List Text} {count : ℕ} {e : Ending} :
    e ∈ endingsFrom seeds front new 0 count ↔
      e.1 < count ∧ 0 < e.2 ∧ e.2 = sizeAt seeds front new (e.1 + 1) := by
  obtain ⟨place, size⟩ := e
  simp only [endingsFrom, List.mem_filterMap, List.mem_range'_1, ending?]
  constructor
  · rintro ⟨j, ⟨-, hj⟩, he⟩
    split at he
    · next hsize =>
      obtain ⟨rfl, rfl⟩ := Prod.mk.inj (Option.some.inj he)
      exact ⟨by omega, hsize, rfl⟩
    · cases he
  · rintro ⟨hplace, hsize, rfl⟩
    exact ⟨place, ⟨Nat.zero_le _, by omega⟩, if_pos hsize⟩

theorem pairwise_endingsFrom (seeds : Text → Bool) (front new : List Text) (count : ℕ) :
    (endingsFrom seeds front new 0 count).Pairwise fun e e' => e.1 < e'.1 := by
  have hfirst : ∀ {j : ℕ} {e : Ending}, ending? seeds front new j = some e → e.1 = j := by
    intro j e he
    rw [ending?] at he
    split at he
    · rw [← Option.some.inj he]
    · cases he
  rw [endingsFrom, List.pairwise_filterMap]
  refine List.Pairwise.imp ?_ List.pairwise_lt_range'
  intro j j' hlt e he e' he'
  rw [hfirst he, hfirst he']
  exact hlt

/-- If the stretches that end at earlier new lines are not longer than the best so far, and none is
longer than the one that ends at the line with the same index, only that one can be better. -/
theorem better_endingsFrom
    {front new : List Text} {index : ℕ} {best : Stretch} (hindex : index < new.length)
    (hearlier : ∀ j < index, sizeAt seeds front new (j + 1) ≤ best.size)
    (hmost : ∀ j, sizeAt seeds front new (j + 1) ≤ sizeAt seeds front new (index + 1)) :
    better index best (endingsFrom seeds front new 0 new.length) =
      if best.size < sizeAt seeds front new (index + 1) then
        { oldStart := index + 1 - sizeAt seeds front new (index + 1)
          newStart := index + 1 - sizeAt seeds front new (index + 1)
          size := sizeAt seeds front new (index + 1) }
      else best := by
  have hsize : ∀ e ∈ endingsFrom seeds front new 0 new.length,
      e.2 ≤ sizeAt seeds front new (index + 1) := by
    intro e he
    rw [(mem_endingsFrom_iff.mp he).2.2]
    exact hmost e.1
  split
  · next hlt =>
    have hmem : (index, sizeAt seeds front new (index + 1)) ∈
        endingsFrom seeds front new 0 new.length :=
      mem_endingsFrom_iff.mpr ⟨hindex, Nat.zero_lt_of_lt hlt, rfl⟩
    obtain ⟨before, after, hcut⟩ := List.append_of_mem hmem
    have hbefore : better index best before = best := by
      refine better_of_le fun e he => ?_
      have hsorted := pairwise_endingsFrom seeds front new new.length
      rw [hcut, List.pairwise_append] at hsorted
      have hlt : e.1 < index := hsorted.2.2 e he _ List.mem_cons_self
      have hlisted : e ∈ endingsFrom seeds front new 0 new.length := by
        rw [hcut]
        exact List.mem_append_left _ he
      rw [(mem_endingsFrom_iff.mp hlisted).2.2]
      exact hearlier e.1 hlt
    rw [hcut] at hsize ⊢
    rw [better_append, hbefore, better_cons, if_pos hlt]
    exact better_of_le fun e he =>
      hsize e (List.mem_append_right _ (List.mem_cons_of_mem _ he))
  · next hle =>
    exact better_of_le fun e he => (hsize e he).trans (Nat.le_of_not_lt hle)

/-- The stretch lies at the same place on both sides, within the lines. -/
structure Stretch.IsDiagonal (stretch : Stretch) (lines : List Text) : Prop where
  start_eq : stretch.newStart = stretch.oldStart
  stop_le : stretch.oldStart + stretch.size ≤ lines.length

/-- What the search knows after some of the lines: the best stretch is diagonal, and no stretch that
ends at one of these lines is longer. -/
structure Known (seeds : Text → Bool) (lines : List Text) (index : ℕ) (best : Stretch) : Prop where
  isDiagonal : best.IsDiagonal lines
  le_size : ∀ i ≤ index, ∀ j, sizeAt seeds (lines.take i).reverse lines j ≤ best.size

/-- One old line more: the best stretch is still diagonal, and at least as long as those that end at
this line. -/
theorem Known.step
    {lines : List Text} {index : ℕ} {best : Stretch} (h : Known seeds lines index best)
    (hindex : index < lines.length) :
    Known seeds lines (index + 1)
      (better index best
        (endingsFrom seeds (lines.take (index + 1)).reverse lines 0 lines.length)) := by
  have hmost : ∀ j, sizeAt seeds (lines.take (index + 1)).reverse lines j ≤
      sizeAt seeds (lines.take (index + 1)).reverse lines (index + 1) :=
    fun j => commonSeeds_le_self _ _
  have hfits : sizeAt seeds (lines.take (index + 1)).reverse lines (index + 1) ≤ index + 1 := by
    calc sizeAt seeds (lines.take (index + 1)).reverse lines (index + 1)
        ≤ (lines.take (index + 1)).reverse.length := commonSeeds_le_length _ _
      _ ≤ index + 1 := by
          rw [List.length_reverse]
          exact List.length_take_le _ _
  rw [better_endingsFrom hindex]
  · refine ⟨?_, fun i hi j => ?_⟩
    · split
      · exact ⟨rfl, (Nat.sub_add_cancel hfits).le.trans hindex⟩
      · exact h.isDiagonal
    · rcases Nat.lt_or_eq_of_le hi with hlt | rfl
      · have hle := h.le_size i (Nat.le_of_lt_succ hlt) j
        split
        · next hbetter => exact hle.trans hbetter.le
        · exact hle
      · split
        · exact hmost j
        · next hworse => exact (hmost j).trans (Nat.le_of_not_lt hworse)
  · -- The same stretch, with the sides exchanged, ended at an earlier old line.
    intro j hj
    rw [sizeAt, commonSeeds_comm]
    exact h.le_size (j + 1) hj (index + 1)
  · exact fun j => hmost (j + 1)

/-- Compared with itself, a list has a longest stretch that lies at the same place on both sides. -/
theorem isDiagonal_longestSeed
    {lines front rest : List Text} (hlines : lines = front ++ rest) {best : Stretch}
    (h : Known seeds lines front.length best) :
    (longestSeed (placesFrom seeds 0 lines) front.length
      (endingsFrom seeds front.reverse lines 0 lines.length) rest best).IsDiagonal lines := by
  induction rest generalizing front best with
  | nil => exact h.isDiagonal
  | cons line rest ih =>
      have hnext : lines = (front ++ [line]) ++ rest := by
        rw [hlines, List.append_assoc, List.singleton_append]
      have hlength : (front ++ [line]).length = front.length + 1 := List.length_append
      have hfront : lines.take (front.length + 1) = front ++ [line] := by
        rw [hnext, ← hlength, List.take_left]
      have hindex : front.length < lines.length := by
        rw [hnext, List.length_append, hlength]
        omega
      have hstep := h.step hindex
      rw [hfront, ← hlength] at hstep
      have hrest := ih hnext hstep
      rw [hlength, List.reverse_append, List.reverse_singleton, List.singleton_append] at hrest
      rw [longestSeed, getD_placesFrom_zero, endingHere_eq_endingsFrom]
      exact hrest

theorem commonFront_self (lines : List Text) : commonFront lines lines = lines.length := by
  induction lines with
  | nil => rfl
  | cons line lines ih => rw [commonFront, if_pos (beq_self_eq_true line), ih, List.length_cons]

/-- A list compared with itself is one stretch. -/
theorem longest_self (seeds : Text → Bool) (lines : List Text) :
    longest seeds lines lines = { oldStart := 0, newStart := 0, size := lines.length } := by
  have hstart : Known seeds lines 0 { oldStart := 0, newStart := 0, size := 0 } :=
    ⟨⟨rfl, Nat.zero_le _⟩, fun i hi j => by
      rw [Nat.le_zero.mp hi]
      exact commonSeeds_le_length _ _⟩
  have hnone : endingsFrom seeds [] lines 0 lines.length = [] := by
    refine List.eq_nil_iff_forall_not_mem.mpr fun e he => ?_
    obtain ⟨-, hpos, hsize⟩ := mem_endingsFrom_iff.mp he
    have hle : e.2 ≤ 0 := hsize ▸ commonSeeds_le_length [] _
    omega
  have hdiagonal := isDiagonal_longestSeed (List.nil_append lines).symm hstart
  rw [List.reverse_nil, hnone] at hdiagonal
  obtain ⟨hsame, hstop⟩ := hdiagonal
  rw [longest]
  generalize longestSeed _ _ _ _ _ = seed at hsame hstop ⊢
  simp only [hsame, commonFront_self, List.length_reverse, List.length_take, List.length_drop,
    Stretch.mk.injEq]
  omega

/-! ## No pieces that change a line -/

theorem pieces_nil (seeds : Text → Bool) : pieces seeds [] [] = [] := by
  rw [pieces, longest_self]
  rfl

/-- A list compared with itself is one piece that stays. -/
theorem pieces_self
    {lines : List Text} (seeds : Text → Bool) (hlines : lines ≠ []) :
    pieces seeds lines lines = [.same lines] := by
  have hpos : 0 < lines.length := List.length_pos_iff.mpr hlines
  rw [pieces, longest_self, dif_pos ⟨hpos, hpos, rfl⟩]
  simp only [List.take_zero, Nat.zero_add, List.drop_zero, List.take_length, List.drop_length,
    pieces_nil, List.nil_append]

/-- A piece that stays has no hunk. -/
theorem hunksOf_same (lines : List Text) : hunksOf [.same lines] = [] := by
  have hshort : ((lines.drop (lines.length - context)).take context).length ≤ 2 * context :=
    (List.length_take_le _ _).trans (Nat.le_mul_of_pos_left _ (by decide))
  simp only [hunksOf, place, trimFront, trimBack, Placed.dropLines, Placed.takeLines, Piece.old,
    groups, Nat.not_lt.mpr hshort, Placed.isChange, List.any_append]
  rfl

/-- A list of lines compared with itself has no hunk. -/
theorem hunks_self (lines : List Text) : hunks lines lines = [] := by
  rw [hunks, script]
  by_cases hlines : lines = []
  · rw [hlines, pieces_nil]
    rfl
  · rw [pieces_self _ hlines]
    exact hunksOf_same lines

/-- The patch from a text to itself is empty. -/
theorem text_self (path : String) (t : Text) : text path t t = [] := by
  rw [text, hunks_self]

end Patch
end Reindent
