import Mathlib.Data.List.Sort
import Reindent.Path.Basic

/-!
# The order of paths

Paths are compared by their components, of which the root is the first.  The comparison is total and
transitive, so sorting gives increasing paths; between paths with the same root it is also
antisymmetric.  A sorted list of such paths is therefore strictly increasing, and it depends on
nothing but which paths are in it.
-/

namespace Reindent

/-! ## Lists without repetitions -/

theorem nodup_eraseDups
    {α : Type} [BEq α] [LawfulBEq α] (as : List α) :
    as.eraseDups.Nodup := by
  induction hlength : as.length using Nat.strong_induction_on generalizing as with
  | _ n ih =>
      cases as with
      | nil => exact List.nodup_nil
      | cons a as =>
          rw [List.eraseDups_cons, List.nodup_cons]
          constructor
          · intro ha
            have hkept := (List.mem_filter.mp (List.mem_eraseDups.mp ha)).2
            simp at hkept
          · have hshorter : (as.filter fun b => !b == a).length < n := by
              rw [← hlength, List.length_cons]
              exact Nat.lt_succ_of_le (List.length_filter_le _ as)
            exact ih _ hshorter _ rfl

namespace Path

theorem nodup_sorted (paths : List Path) :
    (sorted paths).Nodup :=
  (List.mergeSort_perm _ _).nodup_iff.mpr (nodup_eraseDups paths)

theorem mem_sorted
    {path : Path} {paths : List Path} :
    path ∈ sorted paths ↔ path ∈ paths := by
  rw [sorted, List.mem_mergeSort, List.mem_eraseDups]

/-! ## Comparing components -/

theorem le_iff (p q : Path) :
    p.le q = true ↔ ¬ q.components < p.components := by
  rw [le, Bool.not_eq_true', ← Bool.not_eq_true, List.lex_eq_true_iff_lt]

theorem le_trans (p q r : Path) (hpq : p.le q = true) (hqr : q.le r = true) :
    p.le r = true := by
  have hpq' : List.le p.components q.components := (le_iff p q).mp hpq
  have hqr' : List.le q.components r.components := (le_iff q r).mp hqr
  exact (le_iff p r).mpr (List.le_trans hpq' hqr')

theorem le_total (p q : Path) :
    (p.le q || q.le p) = true := by
  rw [Bool.or_eq_true, le_iff, le_iff]
  exact List.le_total p.components q.components

theorem eq_of_components_eq
    {p q : Path} (hroot : p.root = q.root) (h : p.components = q.components) :
    p = q := by
  obtain ⟨root, names⟩ := p
  obtain ⟨root', names'⟩ := q
  obtain rfl : root = root' := hroot
  cases root with
  | none => exact congrArg (Path.mk .none) h
  | slash => exact congrArg (Path.mk .slash) (List.cons.inj h).2
  | doubleSlash => exact congrArg (Path.mk .doubleSlash) (List.cons.inj h).2

/-- The path comes before the other one. -/
def Before (p q : Path) : Prop :=
  p.components < q.components

instance : Std.Irrefl Before where
  irrefl p := List.lt_irrefl p.components

instance : Std.Antisymm Before where
  antisymm _ _ hpq hqp := absurd hqp (List.lt_asymm hpq)

theorem before_of_le_of_ne
    {p q : Path} (hroot : p.root = q.root) (hle : p.le q = true) (hne : p ≠ q) :
    p.Before q := by
  have hle' : List.le p.components q.components := (le_iff p q).mp hle
  rcases List.le_iff_lt_or_eq.mp hle' with hlt | heq
  · exact hlt
  · exact absurd (eq_of_components_eq hroot heq) hne

/-! ## Sorting -/

/-- Sorted paths with one root are strictly increasing. -/
theorem pairwise_before_sorted
    (root : PathRoot) {paths : List Path} (h : ∀ path ∈ paths, path.root = root) :
    (sorted paths).Pairwise Before := by
  have hle : (sorted paths).Pairwise fun p q => p.le q = true :=
    List.pairwise_mergeSort le_trans le_total _
  have hboth := hle.and (nodup_sorted paths)
  refine hboth.imp_of_mem ?_
  rintro p q hp hq ⟨hpq, hne⟩
  have hroot : p.root = q.root :=
    (h p (mem_sorted.mp hp)).trans (h q (mem_sorted.mp hq)).symm
  exact before_of_le_of_ne hroot hpq hne

end Path
end Reindent
