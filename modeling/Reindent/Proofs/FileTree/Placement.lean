import Reindent.Proofs.FileTree.Lookup

/-!
# Where a file is written

A path has a place for a file when its directory is there and the path is not a directory itself.
The file may be there already or be new.  Putting a file where no directory stands closes no way: a
walk passes through directories only, so every walk that led somewhere still leads there.  The path
therefore names the file that was written.
-/

namespace Reindent
namespace FileTree

variable {tree : FileTree} {cwd location : Location} {path : Path}

/-! ## Steps from a directory -/

theorem node?_of_hasDirectory
    (h : tree.hasDirectory location = true) :
    tree.node? location = some .directory := by
  rw [hasDirectory] at h
  split at h
  · next hnode => exact hnode
  · cases h

/-- A step up, or a step down to a name that is not too long and where something stands. -/
def Steps (tree : FileTree) (location : Location) (name : String) (next : Location) : Prop :=
  name = ".." ∧ next = location.dropLast ∨
    name ≠ ".." ∧ name.utf8ByteSize ≤ nameLimit ∧
      (tree.node? (location ++ [name])).isSome = true ∧ next = location ++ [name]

theorem enter_eq_ok_iff
    {next : Location} {name : String} :
    tree.enter location name = .ok next ↔
      tree.hasDirectory location = true ∧ tree.Steps location name next := by
  constructor
  · intro h
    refine ⟨hasDirectory_of_enter h, ?_⟩
    rcases enter_cases h with hup | ⟨hdots, rfl, hnode⟩
    · exact Or.inl hup
    · refine Or.inr ⟨hdots, Nat.le_of_not_lt fun hlong => ?_, hnode, rfl⟩
      unfold enter at h
      rw [if_neg (by simp [hasDirectory_of_enter h]), if_neg hdots, if_pos hlong] at h
      cases h
  · rintro ⟨hdirectory, ⟨hdots, rfl⟩ | ⟨hdots, hname, hnode, rfl⟩⟩
    · rw [enter, if_neg (by simp [hdirectory]), if_pos hdots]
    · rw [enter, if_neg (by simp [hdirectory]), if_neg hdots, if_neg (Nat.not_lt.mpr hname),
        if_neg (by simpa [Option.isSome_iff_ne_none] using hnode)]

/-- A step from a directory to a name that is not too long fails only where nothing stands. -/
theorem enter_of_hasDirectory
    {name : String} (hdirectory : tree.hasDirectory location = true)
    (hname : name.utf8ByteSize ≤ nameLimit) :
    (∃ next, tree.enter location name = .ok next) ∨
      name ≠ ".." ∧ tree.node? (location ++ [name]) = none ∧
        tree.enter location name = .error .notFound := by
  unfold enter
  rw [if_neg (by simp [hdirectory]), if_neg (Nat.not_lt.mpr hname)]
  split
  · exact Or.inl ⟨_, rfl⟩
  · next hdots =>
    split
    · next hnone => exact Or.inr ⟨hdots, Option.isNone_iff_eq_none.mp hnone, rfl⟩
    · exact Or.inl ⟨_, rfl⟩

/-! ## Walks after a file has been put -/

section

variable (hfree : tree.hasDirectory location = false) (bytes : ByteArray)
include hfree

theorem node?_put_of_free :
    (tree.put location (.file bytes)).node? location = some (.file bytes) := by
  refine node?_put_self tree _ ?_
  rintro rfl
  cases hfree

theorem hasDirectory_put
    {other : Location} (h : tree.hasDirectory other = true) :
    (tree.put location (.file bytes)).hasDirectory other = true := by
  have hother : other ≠ location := by
    rintro rfl
    rw [hfree] at h
    cases h
  rw [hasDirectory, node?_put_of_ne tree _ hother]
  exact h

theorem isSome_node?_put
    {other : Location} (h : (tree.node? other).isSome = true) :
    ((tree.put location (.file bytes)).node? other).isSome = true := by
  by_cases hother : other = location
  · rw [hother, node?_put_of_free hfree]
    rfl
  · rw [node?_put_of_ne tree _ hother]
    exact h

theorem enter_put
    {start next : Location} {name : String} (h : tree.enter start name = .ok next) :
    (tree.put location (.file bytes)).enter start name = .ok next := by
  obtain ⟨hdirectory, hsteps⟩ := enter_eq_ok_iff.mp h
  refine enter_eq_ok_iff.mpr ⟨hasDirectory_put hfree bytes hdirectory, ?_⟩
  rcases hsteps with hup | ⟨hdots, hname, hnode, hnext⟩
  · exact Or.inl hup
  · exact Or.inr ⟨hdots, hname, isSome_node?_put hfree bytes hnode, hnext⟩

theorem walk_put
    {start found : Location} {names : List String} (h : tree.walk start names = .ok found) :
    (tree.put location (.file bytes)).walk start names = .ok found := by
  induction names generalizing start with
  | nil => exact h
  | cons name rest ih =>
      obtain ⟨next, henter, hrest⟩ := walk_cons_of_ok h
      rw [walk, enter_put hfree bytes henter]
      exact ih hrest

end

/-! ## Places for files -/

/-- A file can stand at the path: its directory is there, it is not a directory itself, and its
names are not too long. -/
structure HasPlace (tree : FileTree) (cwd : Location) (path : Path) : Prop where
  parent_isDirectory : tree.isDirectory cwd path.parent = .ok true
  not_isDirectory : tree.isDirectory cwd path = .ok false
  withinLimits : path.WithinLimits

/-- A walk to the directory of a path and a step to its name. -/
theorem HasPlace.exists_above
    (h : tree.HasPlace cwd path) :
    ∃ above, tree.walk (start cwd path) path.names.dropLast = .ok above ∧
      tree.hasDirectory above = true := by
  obtain ⟨above, hprobe⟩ := isDirectory_eq_true_iff.mp h.parent_isDirectory
  obtain ⟨hlocate, hnode⟩ := locate_of_probe hprobe
  refine ⟨above, ?_, by rw [hasDirectory, hnode]⟩
  rw [locate] at hlocate
  split at hlocate
  · cases hlocate
  · exact hlocate

theorem HasPlace.names_eq
    (h : tree.HasPlace cwd path) :
    path.names = path.names.dropLast ++ [path.name] := by
  rcases List.eq_nil_or_concat path.names with hnil | ⟨init, last, hnames⟩
  · -- A path without names is its own directory.
    have hparent : path.parent = path := by
      obtain ⟨root, names⟩ := path
      rw [Path.parent]
      simp_all
    have htrue := h.parent_isDirectory
    rw [hparent, h.not_isDirectory] at htrue
    cases htrue
  · rw [List.concat_eq_append] at hnames
    simp [Path.name, hnames]

/-- In a tree that leads to the directory of a path, looking the path up is a step from there. -/
theorem HasPlace.locate_eq
    (h : tree.HasPlace cwd path) {later : FileTree} {above : Location}
    (hwalk : later.walk (start cwd path) path.names.dropLast = .ok above) :
    later.locate cwd path = later.enter above path.name := by
  rw [locate, if_neg (Nat.not_lt.mpr h.withinLimits.text_le), h.names_eq, walk_append, hwalk]
  simp only [walk]
  cases later.enter above path.name <;> rfl

/-- Where a file goes that is written at a path: no directory stands there, and a step from the
path's directory leads there once the file is put. -/
theorem HasPlace.exists_place
    (h : tree.HasPlace cwd path) (hnull : path.hasNull = false) {above : Location}
    (hwalk : tree.walk (start cwd path) path.names.dropLast = .ok above)
    (hdirectory : tree.hasDirectory above = true) :
    ∃ location, tree.place cwd path = .ok location ∧ tree.hasDirectory location = false ∧
      ∀ bytes, (tree.put location (.file bytes)).enter above path.name = .ok location := by
  have hname : path.name.utf8ByteSize ≤ nameLimit :=
    h.withinLimits.name_le _ (by rw [h.names_eq]; simp)
  rcases enter_of_hasDirectory hdirectory hname with ⟨location, henter⟩ | ⟨hdots, hnone, henter⟩
  · -- The path leads somewhere already.
    have hlocate : tree.locate cwd path = .ok location := (h.locate_eq hwalk).trans henter
    have hfree : tree.hasDirectory location = false := by
      refine Bool.eq_false_iff.mpr fun hdirectory => ?_
      have htrue := isDirectory_eq_true_iff.mpr ⟨location,
        probe_eq_some_iff.mpr ⟨hnull, hlocate, node?_of_hasDirectory hdirectory⟩⟩
      rw [h.not_isDirectory] at htrue
      cases htrue
    refine ⟨location, ?_, hfree, fun bytes => enter_put hfree bytes henter⟩
    rw [place, hlocate]
    simp [hfree]
  · -- The file is new.
    have hfree : tree.hasDirectory (above ++ [path.name]) = false := by
      rw [hasDirectory, hnone]
    refine ⟨above ++ [path.name], ?_, hfree, fun bytes => ?_⟩
    · rw [place, h.locate_eq hwalk, henter, hwalk]
    · refine enter_eq_ok_iff.mpr ⟨hasDirectory_put hfree bytes hdirectory,
        Or.inr ⟨hdots, hname, ?_, rfl⟩⟩
      rw [node?_put_of_free hfree]
      rfl

/-- Whatever bytes are written at the place of a path, the path names the file that has them. -/
theorem HasPlace.probe_put
    (h : tree.HasPlace cwd path) (hnull : path.hasNull = false) :
    ∃ location, tree.place cwd path = .ok location ∧
      ∀ bytes, (tree.put location (.file bytes)).probe cwd path =
        .ok (some (location, .file bytes)) := by
  obtain ⟨above, hwalk, hdirectory⟩ := h.exists_above
  obtain ⟨location, hplace, hfree, henter⟩ := h.exists_place hnull hwalk hdirectory
  refine ⟨location, hplace, fun bytes => probe_eq_some_iff.mpr ⟨hnull, ?_, ?_⟩⟩
  · rw [h.locate_eq (walk_put hfree bytes hwalk), henter]
  · exact node?_put_of_free hfree bytes

end FileTree
end Reindent
