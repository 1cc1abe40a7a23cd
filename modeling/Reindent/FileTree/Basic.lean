import Reindent.Path.Basic

/-!
# File trees

A file tree gives the files and directories below the root directory.  A path is looked up name by
name: every name but the last has to be a directory, two dots go up, and a name that is too long is
refused when it is reached.  A path that is too long as a whole is refused before it is walked.
What no walk from the root reaches does not exist.
-/

namespace Reindent

/-- The names that lead from the root directory to a file or directory. -/
abbrev Location := List String

inductive Node where
  | file (bytes : ByteArray)
  | directory

/-- The files and directories at their locations.  The root directory is not listed. -/
structure FileTree where
  entries : List (Location × Node) := []

/-- Why a path cannot be used. -/
inductive FileError where
  | notFound
  | notDirectory
  | isDirectory
  | nameTooLong
  deriving DecidableEq, Repr

def FileError.text : FileError → String
  | .notFound => "No such file or directory"
  | .notDirectory => "Not a directory"
  | .isDirectory => "Is a directory"
  | .nameTooLong => "File name too long"

def FileError.number : FileError → Nat
  | .notFound => 2
  | .notDirectory => 20
  | .isDirectory => 21
  | .nameTooLong => 36

namespace FileTree

/-- How many bytes a name may have. -/
def nameLimit : Nat := 255

/-- How many bytes a path may have. -/
def pathLimit : Nat := 4095

/-- What stands at a location, the locations above it apart. -/
def node? (tree : FileTree) (location : Location) : Option Node :=
  if location = [] then some .directory else tree.entries.lookup location

def hasDirectory (tree : FileTree) (location : Location) : Bool :=
  match tree.node? location with
  | some .directory => true
  | _ => false

/-- One step of a walk: from a location to a name in it. -/
def enter (tree : FileTree) (location : Location) (name : String) : Except FileError Location :=
  if !tree.hasDirectory location then .error .notDirectory
  else if name = ".." then .ok location.dropLast
  else if nameLimit < name.utf8ByteSize then .error .nameTooLong
  else if (tree.node? (location ++ [name])).isNone then .error .notFound
  else .ok (location ++ [name])

/-- The location that names lead to. -/
def walk (tree : FileTree) : Location → List String → Except FileError Location
  | location, [] => .ok location
  | location, name :: rest =>
    match tree.enter location name with
    | .error e => .error e
    | .ok next => tree.walk next rest

/-- The location from which a path is walked. -/
def start (cwd : Location) (path : Path) : Location :=
  if path.isAbsolute then [] else cwd

/-- The location of a path, read from a working directory. -/
def locate (tree : FileTree) (cwd : Location) (path : Path) : Except FileError Location :=
  if pathLimit < path.text.utf8ByteSize then .error .nameTooLong
  else tree.walk (start cwd path) path.names

def read (tree : FileTree) (cwd : Location) (path : Path) : Except FileError ByteArray :=
  match tree.locate cwd path with
  | .error e => .error e
  | .ok location =>
    match tree.node? location with
    | some (.file bytes) => .ok bytes
    | some .directory => .error .isDirectory
    | none => .error .notFound

/-- The tree with a node put at a location. -/
def put (tree : FileTree) (location : Location) (node : Node) : FileTree :=
  { entries := (location, node) :: tree.entries.filter fun entry => entry.1 ≠ location }

/-- The tree without what stands at a location or below it. -/
def remove (tree : FileTree) (location : Location) : FileTree :=
  { entries := tree.entries.filter fun entry => !location.isPrefixOf entry.1 }

theorem lookup_filter_ne (entries : List (Location × Node)) {location other : Location}
    (h : other ≠ location) :
    (entries.filter fun entry => entry.1 ≠ location).lookup other = entries.lookup other := by
  induction entries with
  | nil => rfl
  | cons entry rest ih =>
    obtain ⟨place, node⟩ := entry
    by_cases hplace : place = location
    · have hother : (other == place) = false := by
        rw [beq_eq_false_iff_ne, hplace]
        exact h
      rw [List.filter_cons_of_neg (by simp [hplace]), List.lookup_cons, hother]
      exact ih
    · rw [List.filter_cons_of_pos (by simp [hplace]), List.lookup_cons, List.lookup_cons, ih]

/-- What is put at a location stands there. -/
theorem node?_put_self (tree : FileTree) {location : Location} (node : Node)
    (h : location ≠ []) : (tree.put location node).node? location = some node := by
  simp [node?, put, h]

/-- Putting a node changes no other location. -/
theorem node?_put_of_ne (tree : FileTree) {location other : Location} (node : Node)
    (h : other ≠ location) : (tree.put location node).node? other = tree.node? other := by
  have hother : (other == location) = false := beq_eq_false_iff_ne.mpr h
  simp only [node?, put, List.lookup_cons, hother, lookup_filter_ne tree.entries h]

/-- The location that a file has or would have at a path. -/
def place (tree : FileTree) (cwd : Location) (path : Path) : Except FileError Location :=
  match tree.locate cwd path with
  | .ok location =>
    if tree.hasDirectory location then .error .isDirectory else .ok location
  | .error .notFound =>
    match tree.walk (start cwd path) path.names.dropLast with
    | .error e => .error e
    | .ok above => .ok (above ++ [path.name])
  | .error e => .error e

/-- The tree with a file written at a path.  Its directory has to exist. -/
def write (tree : FileTree) (cwd : Location) (path : Path) (bytes : ByteArray) :
    Except FileError FileTree :=
  match tree.place cwd path with
  | .error e => .error e
  | .ok location => .ok (tree.put location (.file bytes))

/-- A walk from the root reaches the location. -/
def isReached (tree : FileTree) (location : Location) : Bool :=
  match tree.walk [] location with
  | .ok found => found == location
  | .error _ => false

/-- The locations of the files and directories below a directory. -/
def nodesBelow (tree : FileTree) (directory : Location) : List Location :=
  (tree.entries.map Prod.fst).filter fun location =>
    directory.isPrefixOf location && location ≠ directory && tree.isReached location

/-- A file that a walk from the root reaches. -/
def isFileAt (tree : FileTree) (location : Location) : Bool :=
  match tree.walk [] location, tree.node? location with
  | .ok found, some (.file _) => found == location
  | _, _ => false

/-- The locations of the files below a directory. -/
def filesBelow (tree : FileTree) (directory : Location) : List Location :=
  (tree.entries.map Prod.fst).filter fun location =>
    directory.isPrefixOf location && tree.isFileAt location

def bytes? (tree : FileTree) (location : Location) : Option ByteArray :=
  match tree.node? location with
  | some (.file bytes) => some bytes
  | _ => none

def fileLocations (tree : FileTree) : List Location :=
  tree.entries.filterMap fun (location, node) =>
    match node with
    | .file _ => some location
    | .directory => none

/-- The files that differ between two trees, each with its later bytes, if it still has any. -/
def difference (before after : FileTree) : List (Location × Option ByteArray) :=
  (before.fileLocations ++ after.fileLocations).eraseDups.filterMap fun location =>
    let later := after.bytes? location
    if (before.bytes? location).map ByteArray.data = later.map ByteArray.data then none
    else some (location, later)

end FileTree
end Reindent
