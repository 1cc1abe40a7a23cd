import Mathlib.Data.List.Infix
import Reindent.FileTree.Probe

/-!
# Walks in a file tree

A location is reached when a walk from the root along its own names ends at it.  Such a location has
no two dots among its names, and every location that a walk finds is of this form, wherever the
walk began.  So two paths found by a search stand for the same file only if they have the same
names.

A walk depends only on the shape of the tree, that is, on where there are files and directories.
Overwriting a file changes what stands at its location and keeps the shape.
-/

namespace Reindent

/-- The node is a file. -/
def Node.isFile : Node → Bool
  | .file _ => true
  | .directory => false

namespace FileTree

/-! ## Steps and walks -/

/-- What one step of a walk can do: it goes up, or to a name in a directory that has it. -/
theorem enter_cases
    {tree : FileTree} {location next : Location} {name : String}
    (h : tree.enter location name = .ok next) :
    name = ".." ∧ next = location.dropLast ∨
      name ≠ ".." ∧ next = location ++ [name] ∧ (tree.node? next).isSome = true := by
  unfold enter at h
  split at h
  · cases h
  · split at h
    · next hdots =>
      left
      exact ⟨hdots, (Except.ok.inj h).symm⟩
    · next hdots =>
      split at h
      · cases h
      · split at h
        · cases h
        · next hnode =>
          right
          rw [← Except.ok.inj h]
          exact ⟨hdots, rfl, by simpa [Option.isSome_iff_ne_none] using hnode⟩

theorem walk_cons_of_ok
    {tree : FileTree} {location found : Location} {name : String} {rest : List String}
    (h : tree.walk location (name :: rest) = .ok found) :
    ∃ next, tree.enter location name = .ok next ∧ tree.walk next rest = .ok found := by
  rw [walk] at h
  cases henter : tree.enter location name with
  | error e => simp [henter] at h
  | ok next => exact ⟨next, rfl, by simpa [henter] using h⟩

theorem walk_append
    (tree : FileTree) (location : Location) (names more : List String) :
    tree.walk location (names ++ more) =
      match tree.walk location names with
      | .error e => .error e
      | .ok next => tree.walk next more := by
  induction names generalizing location with
  | nil => rfl
  | cons name rest ih =>
      rw [List.cons_append, walk, walk]
      cases tree.enter location name with
      | error e => rfl
      | ok next => exact ih next

theorem walk_append_of_ok
    {tree : FileTree} {location found : Location} {names more : List String}
    (h : tree.walk location (names ++ more) = .ok found) :
    ∃ next, tree.walk location names = .ok next ∧ tree.walk next more = .ok found := by
  rw [walk_append] at h
  cases hwalk : tree.walk location names with
  | error e => simp [hwalk] at h
  | ok next => exact ⟨next, rfl, by simpa [hwalk] using h⟩

/-- A walk is a walk along all names but the last and a step along that one. -/
theorem walk_concat_of_ok
    {tree : FileTree} {location found : Location} {names : List String} {name : String}
    (h : tree.walk location (names ++ [name]) = .ok found) :
    ∃ next, tree.walk location names = .ok next ∧ tree.enter next name = .ok found := by
  obtain ⟨next, hwalk, hlast⟩ := walk_append_of_ok h
  obtain ⟨last, henter, hend⟩ := walk_cons_of_ok hlast
  obtain rfl : last = found := Except.ok.inj hend
  exact ⟨next, hwalk, henter⟩

theorem length_le_of_walk
    {tree : FileTree} {location found : Location} {names : List String}
    (h : tree.walk location names = .ok found) :
    found.length ≤ location.length + names.length := by
  induction names generalizing location with
  | nil =>
      rw [← Except.ok.inj h]
      exact Nat.le_add_right _ _
  | cons name rest ih =>
      obtain ⟨next, henter, hwalk⟩ := walk_cons_of_ok h
      have hfound := ih hwalk
      rw [List.length_cons]
      rcases enter_cases henter with ⟨-, rfl⟩ | ⟨-, rfl, -⟩
      · rw [List.length_dropLast] at hfound
        omega
      · rw [List.length_append, List.length_singleton] at hfound
        omega

/-! ## Reached locations -/

/-- A walk from the root along the names of the location ends at it. -/
def Reaches (tree : FileTree) (location : Location) : Prop :=
  tree.walk [] location = .ok location

theorem reaches_nil (tree : FileTree) :
    tree.Reaches [] := rfl

/-- The last name of a reached location is a step from a reached location. -/
theorem Reaches.of_append
    {tree : FileTree} {location : Location} {name : String}
    (h : tree.Reaches (location ++ [name])) :
    tree.Reaches location ∧ (tree.node? (location ++ [name])).isSome = true := by
  obtain ⟨found, hwalk, henter⟩ := walk_concat_of_ok h
  have hlength := length_le_of_walk hwalk
  rcases enter_cases henter with ⟨-, hup⟩ | ⟨-, hdown, hnode⟩
  · -- Going up from where the names before it lead cannot make the location longer.
    have hshort := congrArg List.length hup
    rw [List.length_append, List.length_dropLast] at hshort
    simp only [List.length_nil, List.length_singleton] at hlength hshort
    omega
  · obtain ⟨rfl, -⟩ := List.append_inj' hdown rfl
    exact ⟨hwalk, hnode⟩

theorem Reaches.dropLast
    {tree : FileTree} {location : Location} (h : tree.Reaches location) :
    tree.Reaches location.dropLast := by
  rcases List.eq_nil_or_concat location with rfl | ⟨init, last, rfl⟩
  · exact h
  · rw [List.concat_eq_append] at h ⊢
    rw [List.dropLast_concat]
    exact h.of_append.1

theorem Reaches.isSome_node?
    {tree : FileTree} {location : Location} (h : tree.Reaches location) :
    (tree.node? location).isSome = true := by
  rcases List.eq_nil_or_concat location with rfl | ⟨init, last, rfl⟩
  · rfl
  · rw [List.concat_eq_append] at h ⊢
    exact h.of_append.2

theorem Reaches.enter
    {tree : FileTree} {location next : Location} (h : tree.Reaches location) {name : String}
    (henter : tree.enter location name = .ok next) :
    tree.Reaches next := by
  rcases enter_cases henter with ⟨-, rfl⟩ | ⟨-, rfl, -⟩
  · exact h.dropLast
  · rw [Reaches, walk_append, show tree.walk [] location = .ok location from h]
    simp [walk, henter]

/-- A walk from a reached location ends at a reached location. -/
theorem Reaches.walk
    {tree : FileTree} {location found : Location} (h : tree.Reaches location)
    {names : List String} (hwalk : tree.walk location names = .ok found) :
    tree.Reaches found := by
  induction names generalizing location with
  | nil =>
      rw [← Except.ok.inj hwalk]
      exact h
  | cons name rest ih =>
      obtain ⟨next, henter, hrest⟩ := walk_cons_of_ok hwalk
      exact ih (h.enter henter) hrest

/-! ## Trees of the same shape -/

theorem exists_file_iff
    {tree : FileTree} {location : Location} :
    (∃ bytes, tree.node? location = some (.file bytes)) ↔
      (tree.node? location).map Node.isFile = some true := by
  rcases tree.node? location with _ | ⟨bytes⟩ | _ <;> simp [Node.isFile]

theorem hasDirectory_iff
    {tree : FileTree} {location : Location} :
    tree.hasDirectory location = true ↔
      (tree.node? location).map Node.isFile = some false := by
  rw [hasDirectory]
  rcases tree.node? location with _ | ⟨bytes⟩ | _ <;> simp [Node.isFile]

/-- Two trees have files and directories at the same locations; the files may have other bytes. -/
def SameShape (tree later : FileTree) : Prop :=
  ∀ location, (later.node? location).map Node.isFile = (tree.node? location).map Node.isFile

namespace SameShape

variable {tree later : FileTree}

theorem refl (tree : FileTree) :
    SameShape tree tree :=
  fun _ => rfl

theorem trans
    {last : FileTree} (h : SameShape tree later) (h' : SameShape later last) :
    SameShape tree last :=
  fun location => (h' location).trans (h location)

theorem exists_file_iff (h : SameShape tree later) (location : Location) :
    (∃ bytes, later.node? location = some (.file bytes)) ↔
      ∃ bytes, tree.node? location = some (.file bytes) := by
  rw [FileTree.exists_file_iff, FileTree.exists_file_iff, h location]

theorem walk_eq (h : SameShape tree later) (start : Location) (names : List String) :
    later.walk start names = tree.walk start names := by
  induction names generalizing start with
  | nil => rfl
  | cons name rest ih =>
      have hdirectory : later.hasDirectory start = tree.hasDirectory start := by
        rw [Bool.eq_iff_iff, hasDirectory_iff, hasDirectory_iff, h start]
      have hnone : (later.node? (start ++ [name])).isNone =
          (tree.node? (start ++ [name])).isNone := by
        rw [← Option.isNone_map, h, Option.isNone_map]
      have henter : later.enter start name = tree.enter start name := by
        rw [enter, enter, hdirectory, hnone]
      rw [walk, walk, henter]
      cases tree.enter start name with
      | error e => rfl
      | ok next => exact ih next

theorem reaches_iff (h : SameShape tree later) (location : Location) :
    later.Reaches location ↔ tree.Reaches location := by
  rw [Reaches, Reaches, h.walk_eq]

theorem locate_eq (h : SameShape tree later) (cwd : Location) (path : Path) :
    later.locate cwd path = tree.locate cwd path := by
  rw [locate, locate, h.walk_eq]

end SameShape

/-! ## Overwriting a file -/

section

variable {tree : FileTree} {location : Location} {old : ByteArray}
  (hold : tree.node? location = some (.file old)) (bytes : ByteArray)
include hold

theorem location_ne_nil_of_file :
    location ≠ [] := by
  rintro rfl
  cases hold

theorem node?_overwritten :
    (tree.put location (.file bytes)).node? location = some (.file bytes) :=
  node?_put_self tree _ (location_ne_nil_of_file hold)

theorem sameShape_overwritten :
    SameShape tree (tree.put location (.file bytes)) := by
  intro other
  by_cases hother : other = location
  · subst hother
    rw [node?_overwritten hold, hold]
    rfl
  · rw [node?_put_of_ne tree _ hother]

end

/-! ## Paths and the locations they lead to -/

theorem locate_of_reaches
    {tree : FileTree} {path : Path} (hroot : path.root = .slash) (h : tree.Reaches path.names)
    (cwd : Location) :
    tree.locate cwd path =
      if pathLimit < path.text.utf8ByteSize then .error .nameTooLong else .ok path.names := by
  have habsolute : start cwd path = [] := by
    simp [start, Path.isAbsolute, hroot]
  rw [locate, habsolute, show tree.walk [] path.names = .ok path.names from h]

theorem Reaches.start
    {tree : FileTree} {cwd : Location} (hcwd : tree.Reaches cwd) (path : Path) :
    tree.Reaches (start cwd path) := by
  rw [FileTree.start]
  split
  · exact tree.reaches_nil
  · exact hcwd

theorem Reaches.locate
    {tree : FileTree} {cwd location : Location} (hcwd : tree.Reaches cwd) {path : Path}
    (h : tree.locate cwd path = .ok location) :
    tree.Reaches location := by
  rw [FileTree.locate] at h
  split at h
  · cases h
  · exact (hcwd.start path).walk h

/-- What stands at a path is found by walking to it. -/
theorem locate_of_probe
    {tree : FileTree} {cwd location : Location} {path : Path} {node : Node}
    (h : tree.probe cwd path = .ok (some (location, node))) :
    tree.locate cwd path = .ok location ∧ tree.node? location = some node := by
  rw [probe] at h
  split at h
  · cases h
  · split at h
    · next found hfound =>
      obtain ⟨node', hnode, hpair⟩ := Option.map_eq_some_iff.mp (Except.ok.inj h)
      obtain ⟨rfl, rfl⟩ := Prod.mk.inj hpair
      exact ⟨hfound, hnode⟩
    · cases h
    · cases h

theorem reaches_of_isFileAt
    {tree : FileTree} {location : Location} (h : tree.isFileAt location = true) :
    tree.Reaches location ∧ ∃ bytes, tree.node? location = some (.file bytes) := by
  rw [isFileAt] at h
  split at h
  · next found bytes hwalk hnode =>
    have hfound : found = location := by simpa using h
    rw [hfound] at hwalk
    exact ⟨hwalk, bytes, hnode⟩
  · cases h

end FileTree
end Reindent
