import Reindent.Command.Session
import Reindent.Proofs.FileTree.Lookup

/-!
# Opening a project again

Of a tree, opening a project sees the shape and the bytes of one file: the settings file.  So a
project opens in the same way after documents were written back, as long as the settings file is
not one of them.
-/

namespace Reindent

variable {tree later : FileTree}

theorem FileTree.SameShape.read_eq
    (h : tree.SameShape later) {cwd : Location} {path : Path}
    (hnode : ∀ location, tree.locate cwd path = .ok location →
      later.node? location = tree.node? location) :
    later.read cwd path = tree.read cwd path := by
  rw [FileTree.read, FileTree.read, h.locate_eq]
  cases hlocate : tree.locate cwd path with
  | error e => rfl
  | ok location => simp only [hnode location hlocate]

theorem Settings.load_of_sameShape
    (h : tree.SameShape later) {cwd : Location} {path : Path}
    (hnode : ∀ location, tree.locate cwd path = .ok location →
      later.node? location = tree.node? location) :
    Settings.load later cwd path = Settings.load tree cwd path := by
  rw [Settings.load, Settings.load, h.read_eq hnode]

namespace Project

theorem searchUp_of_sameShape (h : tree.SameShape later) (names : List String) :
    searchUp later names = searchUp tree names := by
  induction names with
  | nil => rw [searchUp, searchUp, h.isFile_eq]
  | cons name above ih => rw [searchUp, searchUp, h.isFile_eq, ih]

theorem rootOf_of_sameShape (h : tree.SameShape later) (cwd : Location) (start : Path) :
    rootOf later cwd start = rootOf tree cwd start := by
  have hsearch : searchUp later = searchUp tree := funext (searchUp_of_sameShape h)
  rw [rootOf, rootOf, searchStart, searchStart, h.isFile_eq, hsearch]

end Project

namespace Command

/-- The path of the settings file of a project, whether or not there is such a file. -/
def settingsPath? (session : Session) (choice : ProjectChoice) : Option Path :=
  match nonEmpty choice.config, nonEmpty choice.root with
  | some file, _ => ((Path.ofString file).resolved session.cwd).toOption
  | none, some root =>
    ((Path.ofString root).resolved session.cwd).toOption.map fun directory =>
      directory.child Settings.fileName
  | none, none =>
    (Project.rootOf session.tree session.cwd (Project.pathOf session.cwd)).toOption.map
      fun directory => directory.child Settings.fileName

/-- The location of the settings file in use. -/
def settingsLocation? (session : Session) (choice : ProjectChoice) : Option Location :=
  (settingsPath? session choice).bind fun path =>
    (session.tree.locate session.cwd path).toOption

theorem orCrash_bind_congr
    {α β : Type} {result : Except Crash α} {next next' : α → Except Fault β}
    (h : ∀ a, result = .ok a → next a = next' a) :
    orCrash result >>= next = orCrash result >>= next' := by
  cases result with
  | error cause => rfl
  | ok a => exact h a rfl

section

variable {session : Session} (hshape : session.tree.SameShape later)

theorem projectOfFile_of_sameShape
    (root : Option String) {file : String}
    (hload : ∀ path, (Path.ofString file).resolved session.cwd = .ok path →
      Settings.load later session.cwd path = Settings.load session.tree session.cwd path) :
    projectOfFile { session with tree := later } root file = projectOfFile session root file := by
  apply orCrash_bind_congr
  intro path hpath
  simp only [hload path hpath]

include hshape

theorem projectOfRoot_of_sameShape
    {root : String}
    (hload : ∀ directory, (Path.ofString root).resolved session.cwd = .ok directory →
      Settings.load later session.cwd (directory.child Settings.fileName) =
        Settings.load session.tree session.cwd (directory.child Settings.fileName)) :
    projectOfRoot { session with tree := later } root = projectOfRoot session root := by
  apply orCrash_bind_congr
  intro directory hdirectory
  simp only [hshape.isDirectory_eq, hshape.isFile_eq, hload directory hdirectory]

theorem projectAround_of_sameShape
    (hload : ∀ directory,
      Project.rootOf session.tree session.cwd (Project.pathOf session.cwd) = .ok directory →
      Settings.load later session.cwd (directory.child Settings.fileName) =
        Settings.load session.tree session.cwd (directory.child Settings.fileName)) :
    projectAround { session with tree := later } = projectAround session := by
  simp only [projectAround, Project.rootOf_of_sameShape hshape]
  cases hfound : Project.rootOf session.tree session.cwd (Project.pathOf session.cwd) with
  | error fault => cases fault <;> rfl
  | ok directory => simp only [hload directory hfound]

/-- A project opens as before in a tree of the same shape with the same settings file. -/
theorem openProject_of_sameShape
    {choice : ProjectChoice}
    (hsettings : ∀ location ∈ settingsLocation? session choice,
      later.node? location = session.tree.node? location) :
    openProject { session with tree := later } choice = openProject session choice := by
  have hload : ∀ path, settingsPath? session choice = some path →
      Settings.load later session.cwd path = Settings.load session.tree session.cwd path := by
    intro path hpath
    apply Settings.load_of_sameShape hshape
    intro location hlocate
    apply hsettings
    rw [settingsLocation?, hpath, Option.bind_some, hlocate]
    rfl
  cases hconfig : nonEmpty choice.config with
  | some file =>
      simp only [openProject, hconfig]
      refine congrArg _ (projectOfFile_of_sameShape _ fun path hpath => ?_)
      apply hload
      simp [settingsPath?, hconfig, hpath, Except.toOption]
  | none =>
      cases hroot : nonEmpty choice.root with
      | some root =>
          simp only [openProject, hconfig, hroot]
          refine congrArg _ (projectOfRoot_of_sameShape hshape fun directory hdirectory => ?_)
          apply hload
          simp [settingsPath?, hconfig, hroot, hdirectory, Except.toOption]
      | none =>
          simp only [openProject, hconfig, hroot]
          refine projectAround_of_sameShape hshape fun directory hdirectory => ?_
          apply hload
          simp [settingsPath?, hconfig, hroot, hdirectory, Except.toOption]

end

end Command
end Reindent
