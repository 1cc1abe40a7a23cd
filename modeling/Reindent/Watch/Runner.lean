import Reindent.Command.Console
import Reindent.Document.File
import Reindent.Watch.Cycle

/-!
# Running a watch cycle

One cycle reformats the changed documents in path order.  A document that is gone is passed over,
and one that cannot be read is recorded with a warning.  A path that cannot be looked up ends the
cycle; what was written before stays written.
-/

namespace Reindent
namespace Watch

open Command (Note)

structure Progress where
  tree : FileTree
  reformatted : List Path := []
  failed : Advice.Failures := []
  notes : List Note := []

/-- The warning for a document that failed. -/
def warning (fault : Fault) : Note :=
  .log .warning "fubelt.watch" ("watch: " ++ fault.message)

def document (cwd : Location) (unit : Text) (p : Progress) (path : Path) :
    Except Crash Progress := do
  if !(← p.tree.isFile cwd path) then return p
  match Document.format p.tree cwd { unit } path with
  | .error (.crash cause) => throw cause
  | .error fault =>
    return { p with
      failed := p.failed.record path fault.message
      notes := p.notes ++ [warning fault] }
  | .ok (comparison, tree) =>
    return { p with
      tree
      reformatted := if comparison.changed then p.reformatted ++ [path] else p.reformatted }

def documents (cwd : Location) (unit : Text) :
    Progress → List Path → Progress × Except Crash Unit
  | p, [] => (p, .ok ())
  | p, path :: rest =>
    match document cwd unit p path with
    | .error cause => (p, .error cause)
    | .ok next => documents cwd unit next rest

/-- A cycle over a set of changed paths. -/
def runCycle (tree : FileTree) (cwd : Location) (unit : Text) (changed : List Path) :
    Progress × Except Crash Cycle :=
  let paths := Path.sorted changed
  let (p, ended) := documents cwd unit { tree } paths
  (p, ended.map fun _ => { reformatted := p.reformatted, failed := p.failed, changed := paths })

end Watch
end Reindent
