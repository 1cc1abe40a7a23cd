import Reindent.Proofs.Buffer.Order

/-!
# Replacements in the order of a text

Edits of one list are first located, which gives a replacement between two offsets for each, and
then sorted.  Sorting is stable: the replacements of one extent keep the order they have in the
list.  An ordered list is fixed by its replacements of every extent, so this says all about the
sorted list, and the order of replacements with different extents in the given list does not matter.

Of two replacements that do not reach into each other, the first one in the order stops before the
second one starts.  So the pairs of a list can be judged from its sorted list, where each is
compared with the next one only.
-/

namespace Reindent
namespace Buffer

namespace Replacement

/-- The two offsets of a replacement. -/
def extent (r : Replacement) : ℕ × ℕ :=
  (r.start, r.stop)

theorem le_iff {a b : Replacement} :
    a.le b = true ↔ a.start < b.start ∨ a.start = b.start ∧ a.stop ≤ b.stop := by
  simp [le]

theorem le_trans
    (a b c : Replacement) (hab : a.le b = true) (hbc : b.le c = true) :
    a.le c = true := by
  rw [le_iff] at *
  omega

theorem le_total (a b : Replacement) :
    (a.le b || b.le a) = true := by
  rw [Bool.or_eq_true, le_iff, le_iff]
  omega

theorem extent_eq_iff {a b : Replacement} :
    a.extent = b.extent ↔ a.le b = true ∧ b.le a = true := by
  rw [extent, extent, Prod.mk.injEq, le_iff, le_iff]
  omega

/-- Neither replacement reaches into the other: one stops at the latest where the other starts. -/
def Apart (a b : Replacement) : Prop :=
  a.stop ≤ b.start ∨ b.stop ≤ a.start

theorem Apart.symm
    {a b : Replacement} (h : a.Apart b) :
    b.Apart a :=
  Or.symm h

instance decidableApart (a b : Replacement) : Decidable (a.Apart b) :=
  inferInstanceAs (Decidable (a.stop ≤ b.start ∨ b.stop ≤ a.start))

/-- The replacement is between two offsets of a text, the first one not behind the second. -/
def Fits (text : Text) (r : Replacement) : Prop :=
  r.start ≤ r.stop ∧ r.stop ≤ text.length

/-- Replacements in their order that do not reach into each other follow one another. -/
theorem Apart.stop_le_start
    {a b : Replacement} (h : a.Apart b) (hle : a.le b = true) (hb : b.start ≤ b.stop) :
    a.stop ≤ b.start := by
  rw [le_iff] at hle
  rcases h with h | h
  · exact h
  · omega

end Replacement

theorem fits_locate
    {text : Text} {edit : Edit} (hle : (locate text edit).start ≤ (locate text edit).stop) :
    (locate text edit).Fits text :=
  ⟨hle, offsetAt_le_length text edit.span.stop⟩

/-! ## The sorted list -/

/-- The replacements of one extent, in the order of the list. -/
def withExtent (rs : List Replacement) (extent : ℕ × ℕ) : List Replacement :=
  rs.filter fun r => decide (r.extent = extent)

theorem mem_withExtent_iff {rs : List Replacement} {extent : ℕ × ℕ} {r : Replacement} :
    r ∈ withExtent rs extent ↔ r ∈ rs ∧ r.extent = extent := by
  rw [withExtent, List.mem_filter, decide_eq_true_iff]

theorem withExtent_cons_of_eq
    {r : Replacement} {extent : ℕ × ℕ} (heq : r.extent = extent) (rs : List Replacement) :
    withExtent (r :: rs) extent = r :: withExtent rs extent := by
  simp [withExtent, heq]

theorem withExtent_cons_of_ne
    {r : Replacement} {extent : ℕ × ℕ} (hne : r.extent ≠ extent) (rs : List Replacement) :
    withExtent (r :: rs) extent = withExtent rs extent := by
  simp [withExtent, hne]

/-- The replacements in the order of the text. -/
def inOrder (rs : List Replacement) : List Replacement :=
  rs.mergeSort Replacement.le

theorem applyAll_eq_splice (text : Text) (edits : List Edit) :
    applyAll text edits = splice text 0 (inOrder (edits.map (locate text))) := rfl

theorem inOrder_perm (rs : List Replacement) :
    (inOrder rs).Perm rs :=
  List.mergeSort_perm rs _

theorem pairwise_le_inOrder (rs : List Replacement) :
    (inOrder rs).Pairwise fun a b => a.le b = true :=
  List.pairwise_mergeSort Replacement.le_trans Replacement.le_total rs

/-- Sorting keeps the order of the replacements of one extent. -/
theorem withExtent_inOrder (rs : List Replacement) (extent : ℕ × ℕ) :
    withExtent (inOrder rs) extent = withExtent rs extent := by
  have hsame : (withExtent rs extent).Pairwise fun a b => a.le b = true := by
    apply List.pairwise_of_forall_mem_list
    intro a ha b hb
    have heq : a.extent = b.extent :=
      (mem_withExtent_iff.mp ha).2.trans (mem_withExtent_iff.mp hb).2.symm
    exact (Replacement.extent_eq_iff.mp heq).1
  have hsublist : (withExtent rs extent).Sublist (inOrder rs) :=
    List.sublist_mergeSort Replacement.le_trans Replacement.le_total hsame List.filter_sublist
  have hclass : (withExtent rs extent).Sublist (withExtent (inOrder rs) extent) := by
    simpa [withExtent] using hsublist.filter fun r => decide (r.extent = extent)
  exact (hclass.eq_of_length ((inOrder_perm rs).filter _).length_eq.symm).symm

theorem mem_of_withExtent_eq
    {rs rs' : List Replacement} (hextents : ∀ extent, withExtent rs extent = withExtent rs' extent)
    {r : Replacement} (hr : r ∈ rs) :
    r ∈ rs' := by
  have hclass : r ∈ withExtent rs r.extent := mem_withExtent_iff.mpr ⟨hr, rfl⟩
  rw [hextents] at hclass
  exact (mem_withExtent_iff.mp hclass).1

theorem le_of_mem_cons
    {a r : Replacement} {rest : List Replacement}
    (hle : (a :: rest).Pairwise fun a b => a.le b = true) (hr : r ∈ a :: rest) :
    a.le r = true := by
  rcases List.mem_cons.mp hr with rfl | hr
  · exact (Replacement.extent_eq_iff.mp rfl).1
  · exact List.rel_of_pairwise_cons hle hr

/-- An ordered list is fixed by its replacements of every extent. -/
theorem eq_of_withExtent_eq
    {rs rs' : List Replacement} (hrs : rs.Pairwise fun a b => a.le b = true)
    (hrs' : rs'.Pairwise fun a b => a.le b = true)
    (hextents : ∀ extent, withExtent rs extent = withExtent rs' extent) :
    rs = rs' := by
  induction rs generalizing rs' with
  | nil =>
      refine (List.eq_nil_iff_forall_not_mem.mpr ?_).symm
      intro r hr
      exact List.not_mem_nil (mem_of_withExtent_eq (fun extent => (hextents extent).symm) hr)
  | cons a rest ih =>
      have hmem : a ∈ rs' := mem_of_withExtent_eq hextents List.mem_cons_self
      obtain ⟨b, rest', rfl⟩ := List.exists_cons_of_ne_nil (List.ne_nil_of_mem hmem)
      -- Each of the two first ones is in the other list, so none comes before the other.
      have hba : b.le a = true := le_of_mem_cons hrs' hmem
      have hab : a.le b = true :=
        le_of_mem_cons hrs
          (mem_of_withExtent_eq (fun extent => (hextents extent).symm) List.mem_cons_self)
      have hsame : b.extent = a.extent := Replacement.extent_eq_iff.mpr ⟨hba, hab⟩
      have hfirst := hextents a.extent
      rw [withExtent_cons_of_eq rfl, withExtent_cons_of_eq hsame, List.cons.injEq] at hfirst
      obtain ⟨rfl, htail⟩ := hfirst
      congr 1
      refine ih hrs.of_cons hrs'.of_cons ?_
      intro extent
      by_cases heq : a.extent = extent
      · rw [← heq, htail]
      · have hextent := hextents extent
        rwa [withExtent_cons_of_ne heq, withExtent_cons_of_ne heq] at hextent

/-! ## Pairs of replacements -/

/-- Two replacements at different places of the list reach into each other. -/
def Overlapping (rs : List Replacement) : Prop :=
  ∃ (i j : ℕ) (hi : i < rs.length) (hj : j < rs.length), i ≠ j ∧ ¬ rs[i].Apart rs[j]

theorem not_overlapping_iff {rs : List Replacement} :
    ¬ Overlapping rs ↔ rs.Pairwise Replacement.Apart := by
  rw [List.pairwise_iff_getElem]
  constructor
  · intro h i j hi hj hlt
    by_contra hapart
    exact h ⟨i, j, hi, hj, hlt.ne, hapart⟩
  · rintro h ⟨i, j, hi, hj, hne, hapart⟩
    rcases Nat.lt_or_gt_of_ne hne with hlt | hlt
    · exact hapart (h i j hi hj hlt)
    · exact hapart (h j i hj hi hlt).symm

instance decidableOverlapping (rs : List Replacement) : Decidable (Overlapping rs) :=
  decidable_of_iff (¬ rs.Pairwise Replacement.Apart) (not_iff_comm.mp not_overlapping_iff)

/-- From a cursor on, each replacement starts at the earliest where the one before it stops. -/
def InTurn (cursor : ℕ) (rs : List Replacement) : Prop :=
  (∀ r ∈ rs, cursor ≤ r.start) ∧ rs.Pairwise fun a b => a.stop ≤ b.start

theorem inTurn_cons_iff
    {cursor : ℕ} {r : Replacement} (hr : r.start ≤ r.stop) {rest : List Replacement} :
    InTurn cursor (r :: rest) ↔ cursor ≤ r.start ∧ InTurn r.stop rest := by
  rw [InTurn, List.forall_mem_cons, List.pairwise_cons, InTurn]
  constructor
  · rintro ⟨⟨hcursor, -⟩, hstop, hrest⟩
    exact ⟨hcursor, hstop, hrest⟩
  · rintro ⟨hcursor, hstop, hrest⟩
    refine ⟨⟨hcursor, ?_⟩, hstop, hrest⟩
    intro r' hr'
    exact (hcursor.trans hr).trans (hstop r' hr')

/-- The sorted list goes in turn exactly when no two replacements reach into each other. -/
theorem inTurn_inOrder_iff
    {rs : List Replacement} (hrs : ∀ r ∈ rs, r.start ≤ r.stop) :
    InTurn 0 (inOrder rs) ↔ rs.Pairwise Replacement.Apart := by
  have hperm := inOrder_perm rs
  have hforward : ∀ r ∈ inOrder rs, r.start ≤ r.stop := fun r hr => hrs r (hperm.mem_iff.mp hr)
  rw [← hperm.pairwise_iff Replacement.Apart.symm, InTurn]
  constructor
  · rintro ⟨-, hturn⟩
    exact hturn.imp Or.inl
  · intro hapart
    refine ⟨fun r _ => Nat.zero_le _, ?_⟩
    apply List.Pairwise.imp_of_mem _ (hapart.and (pairwise_le_inOrder rs))
    intro a b _ hb h
    exact h.1.stop_le_start h.2 (hforward b hb)

end Buffer
end Reindent
