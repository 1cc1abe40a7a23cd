import Reindent.Command.Session
import Reindent.Proofs.Selection.Documents

/-!
# Opening a project

Finding the project of a command reads the settings and asks for files, but opens no document.  So
whatever goes wrong on the way is not an error of a document.
-/

namespace Reindent

namespace Settings

theorem sparesDocuments_ofBytes (path : Path) (bytes : ByteArray) :
    SparesDocuments (ofBytes path bytes) := by
  rw [ofBytes]
  split
  · exact SparesDocuments.error nofun
  · split
    · exact SparesDocuments.error nofun
    · exact SparesDocuments.error nofun
    · exact SparesDocuments.error nofun
    · exact SparesDocuments.error nofun
    · next document _ =>
      cases ofToml document with
      | ok settings => exact SparesDocuments.ok settings
      | error cause =>
          refine SparesDocuments.error ?_
          intro other
          unfold faultOf
          split
          · split <;> exact nofun
          · exact nofun

theorem sparesDocuments_load (tree : FileTree) (cwd : Location) (path : Path) :
    SparesDocuments (load tree cwd path) := by
  rw [load]
  split
  · exact SparesDocuments.error nofun
  · split
    · exact SparesDocuments.error nofun
    · exact SparesDocuments.error nofun
    · exact sparesDocuments_ofBytes path _

end Settings

namespace Project

theorem sparesDocuments_searchUp (tree : FileTree) (names : List String) :
    SparesDocuments (searchUp tree names) := by
  induction names with
  | nil =>
      refine (SparesDocuments.orCrash _).bind fun present => ?_
      split
      · exact SparesDocuments.ok _
      · exact SparesDocuments.error nofun
  | cons name above ih =>
      refine (SparesDocuments.orCrash _).bind fun present => ?_
      split
      · exact SparesDocuments.ok _
      · exact ih

theorem sparesDocuments_rootOf (tree : FileTree) (cwd : Location) (start : Path) :
    SparesDocuments (rootOf tree cwd start) :=
  (SparesDocuments.orCrash _).bind fun _ => sparesDocuments_searchUp tree _

end Project

namespace Command

theorem sparesDocuments_projectOfFile (session : Session) (root : Option String) (file : String) :
    SparesDocuments (projectOfFile session root file) := by
  refine (SparesDocuments.orCrash _).bind fun path => ?_
  have hload : ∀ directory, SparesDocuments (do
      let settings ← Settings.load session.tree session.cwd path
      return ({ root := directory, settings } : Workspace)) := by
    intro directory
    exact (Settings.sparesDocuments_load _ _ path).bind fun settings => SparesDocuments.ok _
  cases root with
  | none => exact hload path.parent
  | some r => exact (SparesDocuments.orCrash _).bind hload

theorem sparesDocuments_projectOfRoot (session : Session) (root : String) :
    SparesDocuments (projectOfRoot session root) := by
  refine (SparesDocuments.orCrash _).bind fun directory => ?_
  refine (SparesDocuments.orCrash _).bind fun isDirectory => ?_
  dsimp only
  split
  · exact SparesDocuments.error nofun
  · refine (SparesDocuments.orCrash _).bind fun present => ?_
    split
    · exact (Settings.sparesDocuments_load _ _ _).bind fun settings => SparesDocuments.ok _
    · exact SparesDocuments.ok _

theorem sparesDocuments_projectAround (session : Session) :
    SparesDocuments (projectAround session).2 := by
  have hroot := Project.sparesDocuments_rootOf session.tree session.cwd
    (Project.pathOf session.cwd)
  rw [projectAround]
  split
  · exact SparesDocuments.ok _
  · next fault _ hfault =>
    rw [hfault] at hroot
    intro cause heq
    exact hroot cause (congrArg Except.error (Except.error.inj heq))
  · exact (Settings.sparesDocuments_load _ _ _).bind fun settings => SparesDocuments.ok _

/-- A project that cannot be opened is not the fault of a document. -/
theorem sparesDocuments_openProject (session : Session) (choice : ProjectChoice) :
    SparesDocuments (openProject session choice).2 := by
  rw [openProject]
  split
  · exact sparesDocuments_projectOfFile session _ _
  · exact sparesDocuments_projectOfRoot session _
  · exact sparesDocuments_projectAround session

end Command
end Reindent
