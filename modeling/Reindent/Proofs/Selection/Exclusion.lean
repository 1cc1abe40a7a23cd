import Mathlib.Data.List.Infix
import Reindent.Selection.Exclusion
import Reindent.Text.Repeat

/-!
# Patterns for any number of directories

A pattern that starts with `**/` is tried as it stands and once more after each `**/` is taken off.
A run crosses slashes, so one `**/` already passes over any number of directories, and more of them
only ask for more slashes.  Whatever the number, the pattern behind them is compared with the whole
path and with what follows each of its slashes.
-/

namespace Reindent

/-! ## Runs and slashes -/

namespace Glob

theorem mem_suffixes_iff
    {s t : Text} :
    s ∈ suffixes t ↔ s <:+ t := by
  induction t with
  | nil => simp [suffixes]
  | cons c cs ih => rw [suffixes, List.mem_cons, ih, List.suffix_cons_iff]

theorem itemsMatch_run_iff
    {items : List Item} {t : Text} :
    itemsMatch (.run :: items) t = true ↔
      ∃ skipped rest, t = skipped ++ rest ∧ itemsMatch items rest = true := by
  rw [itemsMatch, List.any_eq_true]
  constructor
  · rintro ⟨rest, hrest, hmatch⟩
    obtain ⟨skipped, rfl⟩ := mem_suffixes_iff.mp hrest
    exact ⟨skipped, rest, rfl, hmatch⟩
  · rintro ⟨skipped, rest, rfl, hmatch⟩
    exact ⟨rest, mem_suffixes_iff.mpr (List.suffix_append skipped rest), hmatch⟩

theorem itemsMatch_literal_iff
    {c : Char} {items : List Item} {t : Text} :
    itemsMatch (.literal c :: items) t = true ↔
      ∃ rest, t = c :: rest ∧ itemsMatch items rest = true := by
  cases t with
  | nil => simp [itemsMatch]
  | cons d ds =>
      simp only [itemsMatch, Item.fits, Bool.and_eq_true, beq_iff_eq, List.cons.injEq]
      constructor
      · rintro ⟨rfl, hmatch⟩
        exact ⟨ds, ⟨rfl, rfl⟩, hmatch⟩
      · rintro ⟨rest, ⟨rfl, rfl⟩, hmatch⟩
        exact ⟨rfl, hmatch⟩

end Glob

namespace Selection

/-- The start of a pattern that stands for any number of directories. -/
def anyDirectories : Text := ['*', '*', '/']

/-- A pattern behind so many starts that stand for any number of directories. -/
def inDirectories (count : ℕ) (pattern : Text) : Text :=
  Text.repeated anyDirectories count ++ pattern

theorem inDirectories_zero (pattern : Text) :
    inDirectories 0 pattern = pattern := rfl

theorem inDirectories_succ (count : ℕ) (pattern : Text) :
    inDirectories (count + 1) pattern = anyDirectories ++ inDirectories count pattern := by
  rw [inDirectories, inDirectories, Text.repeated_eq, Text.repeated_eq, List.replicate_succ,
    List.flatten_cons, List.append_assoc]

/-- The pattern describes the text behind some slash. -/
def DescribesBelow (pattern t : Text) : Prop :=
  ∃ above below, t = above ++ '/' :: below ∧ Glob.matchesText pattern below = true

/-- One start passes over everything up to some slash. -/
theorem matchesText_anyDirectories_iff
    {pattern t : Text} :
    Glob.matchesText (anyDirectories ++ pattern) t = true ↔ DescribesBelow pattern t := by
  have hitems : Glob.items (anyDirectories ++ pattern) =
      .run :: .run :: .literal '/' :: Glob.items pattern := rfl
  simp only [DescribesBelow, Glob.matchesText_eq, hitems, Glob.itemsMatch_run_iff,
    Glob.itemsMatch_literal_iff]
  constructor
  · rintro ⟨first, -, rfl, second, -, rfl, below, rfl, hmatch⟩
    exact ⟨first ++ second, below, (List.append_assoc _ _ _).symm, hmatch⟩
  · rintro ⟨above, below, rfl, hmatch⟩
    exact ⟨above, _, rfl, [], _, rfl, below, rfl, hmatch⟩

/-- Each start moves the pattern behind one more slash, so the last one decides. -/
theorem describesBelow_of_matchesText_inDirectories
    {count : ℕ} {pattern t : Text}
    (h : Glob.matchesText (inDirectories (count + 1) pattern) t = true) :
    DescribesBelow pattern t := by
  rw [inDirectories_succ, matchesText_anyDirectories_iff] at h
  induction count generalizing t with
  | zero => exact h
  | succ count ih =>
      obtain ⟨above, below, rfl, hbelow⟩ := h
      rw [inDirectories_succ, matchesText_anyDirectories_iff] at hbelow
      obtain ⟨above', below', rfl, hmatch⟩ := ih hbelow
      exact ⟨above ++ '/' :: above', below', by simp, hmatch⟩

/-! ## The forms of a pattern -/

theorem forms_of_not_anyDirectories
    {pattern : Text} (h : ¬ anyDirectories <+: pattern) :
    forms pattern = [pattern] := by
  unfold forms
  split
  · next rest => exact absurd ⟨rest, rfl⟩ h
  · rfl

/-- The forms of a pattern behind some starts are those with as many starts or fewer. -/
theorem mem_forms_inDirectories_iff
    {pattern : Text} (h : ¬ anyDirectories <+: pattern) {count : ℕ} {form : Text} :
    form ∈ forms (inDirectories count pattern) ↔ ∃ k ≤ count, form = inDirectories k pattern := by
  induction count with
  | zero =>
      rw [inDirectories_zero, forms_of_not_anyDirectories h, List.mem_singleton]
      simp [inDirectories_zero]
  | succ count ih =>
      have hforms : forms (inDirectories (count + 1) pattern) =
          inDirectories (count + 1) pattern :: forms (inDirectories count pattern) := by
        rw [inDirectories_succ]
        rfl
      rw [hforms, List.mem_cons, ih]
      constructor
      · rintro (rfl | ⟨k, hk, rfl⟩)
        · exact ⟨count + 1, le_rfl, rfl⟩
        · exact ⟨k, Nat.le_succ_of_le hk, rfl⟩
      · rintro ⟨k, hk, rfl⟩
        rcases Nat.lt_or_eq_of_le hk with hlt | rfl
        · exact Or.inr ⟨k, Nat.le_of_lt_succ hlt, rfl⟩
        · exact Or.inl rfl

/-! ## Exclusion -/

theorem isExcluded_singleton_iff
    {pattern path : String} :
    isExcluded [pattern] path = true ↔
      ∃ form ∈ forms pattern.toList, Glob.matchesText form path.toList = true := by
  rw [isExcluded, List.any_cons, List.any_nil, Bool.or_false, excludes, List.any_eq_true]

theorem isExcluded_inDirectories_iff
    {pattern : String} (h : ¬ anyDirectories <+: pattern.toList) (path : String) (count : ℕ) :
    isExcluded [String.ofList (inDirectories (count + 1) pattern.toList)] path = true ↔
      Glob.matchesText pattern.toList path.toList = true ∨
        DescribesBelow pattern.toList path.toList := by
  rw [isExcluded_singleton_iff, String.toList_ofList]
  constructor
  · rintro ⟨form, hform, hmatch⟩
    obtain ⟨k, -, rfl⟩ := (mem_forms_inDirectories_iff h).mp hform
    cases k with
    | zero => exact Or.inl hmatch
    | succ k => exact Or.inr (describesBelow_of_matchesText_inDirectories hmatch)
  · rintro (hwhole | hbelow)
    · exact ⟨_, (mem_forms_inDirectories_iff h).mpr ⟨0, Nat.zero_le _, rfl⟩, hwhole⟩
    · refine ⟨_, (mem_forms_inDirectories_iff h).mpr ⟨1, Nat.le_add_left 1 count, rfl⟩, ?_⟩
      exact matchesText_anyDirectories_iff.mpr hbelow

/-- A pattern behind one start or more, itself without one, excludes a path exactly when it
describes the whole path or what follows one of its slashes.  The number of starts does not matter,
and a list of patterns excludes what one of its members excludes. -/
theorem isExcluded_below_any_directory
    (path : String) {pattern : String} (hpattern : ¬ anyDirectories <+: pattern.toList)
    {count : ℕ} (hcount : 1 ≤ count) :
    (isExcluded [String.ofList (inDirectories count pattern.toList)] path = true ↔
      Glob.matchesText pattern.toList path.toList = true ∨
        ∃ above below, path.toList = above ++ '/' :: below ∧
          Glob.matchesText pattern.toList below = true) ∧
    (∀ other, 1 ≤ other →
      isExcluded [String.ofList (inDirectories other pattern.toList)] path =
        isExcluded [String.ofList (inDirectories count pattern.toList)] path) ∧
    ∀ patterns : List String,
      isExcluded patterns path = true ↔ ∃ member ∈ patterns, isExcluded [member] path = true := by
  obtain ⟨count, rfl⟩ := Nat.exists_eq_add_of_le' hcount
  refine ⟨isExcluded_inDirectories_iff hpattern path count, ?_, ?_⟩
  · intro other hother
    obtain ⟨other, rfl⟩ := Nat.exists_eq_add_of_le' hother
    rw [Bool.eq_iff_iff, isExcluded_inDirectories_iff hpattern,
      isExcluded_inDirectories_iff hpattern]
  · intro patterns
    simp only [isExcluded, List.any_eq_true, List.mem_singleton, exists_eq_left]

/-- Two starts before a pattern with a bracket and a run: the pattern is found behind the first
slash of the path, and the run crosses the second one. -/
theorem isExcluded_below_vendor :
    ¬ anyDirectories <+: "[u-w]endor/*".toList ∧
      isExcluded ["**/**/[u-w]endor/*"] "src/vendor/lib/a.fubelt" = true ∧
      isExcluded ["**/[u-w]endor/*"] "src/vendor/lib/a.fubelt" = true ∧
      isExcluded ["**/**/[u-w]endor/*"] "src/myvendor/a.fubelt" = false := by
  have hpattern : ¬ anyDirectories <+: "[u-w]endor/*".toList := by decide
  have htwice : "**/**/[u-w]endor/*" =
      String.ofList (inDirectories 2 "[u-w]endor/*".toList) := by decide
  have honce : "**/[u-w]endor/*" = String.ofList (inDirectories 1 "[u-w]endor/*".toList) := by
    decide
  obtain ⟨hiff, hsame, -⟩ := isExcluded_below_any_directory "src/vendor/lib/a.fubelt" hpattern
    (show 1 ≤ 2 by decide)
  have hfound : isExcluded ["**/**/[u-w]endor/*"] "src/vendor/lib/a.fubelt" = true := by
    rw [htwice]
    exact hiff.mpr
      (Or.inr ⟨"src".toList, "vendor/lib/a.fubelt".toList, by decide, by decide +kernel⟩)
  refine ⟨hpattern, hfound, ?_, by decide +kernel⟩
  rw [honce, hsame 1 le_rfl, ← htwice]
  exact hfound

end Selection
end Reindent
