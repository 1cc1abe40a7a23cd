import Reindent.Command.Session
import Reindent.Selection.Change
import Reindent.Watch.Runner

/-!
# The watch command

Reformatting documents whenever they change.  Changes come in batches; a batch without a watched
document is passed over, and a cycle that fails does not end the watch.
-/

namespace Reindent
namespace Command
namespace Watch

structure Request where
  project : ProjectChoice := {}
  json : Bool := false
  paths : List String := []
  deriving DecidableEq, Repr

/-- A change that someone else makes to the tree. -/
inductive Change where
  | put (location : Location) (node : Node)
  | remove (location : Location)

def Change.apply (tree : FileTree) : Change → FileTree
  | .put location node => tree.put location node
  | .remove location => tree.remove location

/-- What the watch is told: the changes made to the tree and the paths reported as changed, or that
the user stops it. -/
inductive Event where
  | batch (changes : List Change) (paths : List Path)
  | interrupt

/-- What is watched, and how documents are formatted. -/
structure Scope where
  cwd : Location
  roots : List Path
  settings : Settings
  unit : Text
  json : Bool
  elapsed : Reindent.Watch.Elapsed

structure Progress where
  tree : FileTree
  output : List Output := []
  notes : List Note := []

/-- What a cycle shows to a user, or to a program. -/
def shown (scope : Scope) (cycle : Reindent.Watch.Cycle) : List Output × List Note :=
  if scope.json then ([.record (cycle.json scope.elapsed)], [])
  else if cycle.failed.isEmpty then ([], [])
  else ([], [.line (Advice.trimEnd (Advice.failed cycle.failed))])

/-- One batch of changed paths. -/
def batch (scope : Scope) (p : Progress) (paths : List Path) : Progress :=
  let relevant := Selection.ofChanges scope.roots scope.settings.extensions
    scope.settings.excluded paths
  if relevant = [] then p
  else
    let heading := Note.line ("[watch] change detected: "
      ++ ", ".intercalate (relevant.map Path.text))
    let (done, ended) :=
      Reindent.Watch.runCycle p.tree scope.cwd scope.unit relevant
    match ended with
    | .error cause =>
      { p with
        tree := done.tree
        notes := p.notes ++ heading :: done.notes ++ [.line (Fault.crash cause).report] }
    | .ok cycle =>
      let count := Note.line ("[watch] reformatted " ++ toString cycle.reformatted.length
        ++ " document(s)")
      let (output, notes) := shown scope cycle
      { tree := done.tree
        output := p.output ++ output
        notes := p.notes ++ heading :: done.notes ++ count :: notes }

/-- The events of a watch, up to the first interrupt. -/
def events (scope : Scope) : Progress → List Event → Progress
  | p, [] => p
  | p, .interrupt :: _ => { p with notes := p.notes ++ [.line "[watch] stopped"] }
  | p, .batch changes paths :: rest =>
    events scope (batch scope { p with tree := changes.foldl Change.apply p.tree } paths) rest

/-- The absolute paths to watch.  All of them have to exist. -/
def watchedRoots (session : Session) (project : Workspace) (paths : List String) :
    Except Fault (List Path) := do
  let roots ← orCrash ((targets project paths).mapM fun path => path.resolved session.cwd)
  let found ← orCrash (roots.mapM fun root => do
    return (root, ← session.tree.isPresent session.cwd root))
  match found.find? fun entry => !entry.2 with
  | some (root, _) => throw (.noSuchPath root)
  | none => return roots

/-- What is said when changes cannot be observed. -/
def notInstalled : String :=
  "watchfiles is required for watch mode. Install it with: pip install fubelt[watch]"

/-- For how many milliseconds changes are gathered into one batch. -/
def debounce : Nat := 200

/-- The watch command: its outcome, and what was watched if the watch began.  `available` says
whether changes can be observed. -/
def run (session : Session) (available : Bool) (elapsed : Reindent.Watch.Elapsed)
    (request : Request) (told : List Event) : Outcome × Option (List Path) :=
  if !available then
    (failed session request.json "watch" [] (.missingPackage notInstalled), none)
  else
    let (opening, project) := openProject session request.project
    let ready : Except Fault (Workspace × List Path) := do
      let project ← project
      return (project, ← watchedRoots session project request.paths)
    match ready with
    | .error fault => (failed session request.json "watch" opening fault, none)
    | .ok (project, roots) =>
      let heading := Note.line ("[watch] watching " ++ ", ".intercalate (roots.map Path.text)
        ++ " (Ctrl-C to stop)")
      match project.settings.unit session.memory with
      | .error cause =>
        (failed session request.json "watch" (opening ++ [heading]) (.crash (.indentation cause)),
          none)
      | .ok unit =>
        let scope : Scope :=
          { cwd := session.cwd, roots, settings := project.settings, unit, json := request.json
            elapsed }
        let done := events scope { tree := session.tree } told
        ({ exit := .ok success
           output := done.output
           notes := opening ++ heading :: done.notes
           tree := done.tree
           input := session.input }, some roots)

end Watch
end Command
end Reindent
