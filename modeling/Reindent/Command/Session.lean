import Reindent.Command.Console
import Reindent.Document.File
import Reindent.Project.Load
import Reindent.Selection.Search

/-!
# Sessions

What a command works on, what it leaves behind, and how it finds the project it works for.
-/

namespace Reindent
namespace Command

/-- Exit codes. -/
def success : Nat := 0
def checkFailed : Nat := 1
def badProject : Nat := 2
def badDocument : Nat := 3

/-- What a command works on, and the memory that it has for it. -/
structure Session where
  tree : FileTree
  cwd : Location
  input : ByteArray := ByteArray.empty
  memory : Nat := Text.usualMemory

/-- What a command leaves behind: its exit code or the error that stopped it, what it wrote, the
tree, and what is left of the standard input. -/
structure Outcome where
  exit : Except Crash Nat
  output : List Output := []
  notes : List Note := []
  tree : FileTree
  input : ByteArray

/-- A session that ends without changing anything. -/
def Session.finish (session : Session) (exit : Nat) (output : List Output) (notes : List Note) :
    Outcome :=
  { exit := .ok exit, output, notes, tree := session.tree, input := session.input }

/-- Which project a command is for.  An empty text counts as none. -/
structure ProjectChoice where
  root : Option String := none
  config : Option String := none
  deriving DecidableEq, Repr

/-- A given text, unless it is empty. -/
def nonEmpty (choice : Option String) : Option String :=
  choice.filter (· ≠ "")

/-- An open project: its root and its settings. -/
structure Workspace where
  root : Path
  settings : Settings
  deriving DecidableEq, Repr

/-- The project of a settings file, with the directory of the file as its root unless another one
is given. -/
def projectOfFile (session : Session) (root : Option String) (file : String) :
    Except Fault Workspace := do
  let path ← orCrash ((Path.ofString file).resolved session.cwd)
  let directory ← match root with
    | some r => orCrash ((Path.ofString r).resolved session.cwd)
    | none => pure path.parent
  return { root := directory, settings := ← Settings.load session.tree session.cwd path }

/-- The project of a directory, with default settings if it has no settings file. -/
def projectOfRoot (session : Session) (root : String) : Except Fault Workspace := do
  let directory ← orCrash ((Path.ofString root).resolved session.cwd)
  if !(← orCrash (session.tree.isDirectory session.cwd directory)) then
    throw (.settings (.rootNotDirectory directory))
  let file := directory.child Settings.fileName
  if ← orCrash (session.tree.isFile session.cwd file) then
    return { root := directory, settings := ← Settings.load session.tree session.cwd file }
  else return { root := directory, settings := {} }

/-- The log entry for a working directory without a project. -/
def noProjectNote : Note :=
  .log .debug "fubelt.cli" "no fubelt.toml found; using default configuration"

/-- The project around the working directory, with default settings if there is none. -/
def projectAround (session : Session) : List Note × Except Fault Workspace :=
  match Project.rootOf session.tree session.cwd (Project.pathOf session.cwd) with
  | .error (.settings _) =>
    ([noProjectNote], .ok { root := Project.pathOf session.cwd, settings := {} })
  | .error fault => ([], .error fault)
  | .ok root =>
    ([], do
      let file := root.child Settings.fileName
      return { root, settings := ← Settings.load session.tree session.cwd file })

/-- The project that a command is for, and what is logged on the way to it. -/
def openProject (session : Session) (choice : ProjectChoice) :
    List Note × Except Fault Workspace :=
  match nonEmpty choice.config, nonEmpty choice.root with
  | some file, root => ([], projectOfFile session root file)
  | none, some root => ([], projectOfRoot session root)
  | none, none => projectAround session

/-- The paths that a command is for: those given, or those that the settings include. -/
def targets (project : Workspace) (paths : List String) : List Path :=
  if paths = [] then project.settings.included.map fun p => project.root.join (Path.ofString p)
  else paths.map Path.ofString

/-- How a failed command ends: a crash goes on, any other failure gives an exit code and is shown as
the output mode asks. -/
def failed (session : Session) (json : Bool) (command : String) (notes : List Note)
    (fault : Fault) : Outcome :=
  match fault with
  | .crash cause =>
    { exit := .error cause, notes, tree := session.tree, input := session.input }
  | other =>
    let code := match other with
      | .document _ => badDocument
      | _ => badProject
    if json then
      session.finish code
        [.value (.obj [("command", .str command), ("ok", .bool false),
          ("error", .str other.message)])] notes
    else session.finish code [] (notes ++ [.line other.report])

end Command
end Reindent
