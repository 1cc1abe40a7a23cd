import Reindent.FileTree.Probe
import Reindent.Project.Error
import Reindent.Selection.Exclusion

/-!
# Searching for documents

The documents that a list of paths stands for.  A file stands for itself, whatever its suffix; a
directory stands for the files below it that have the suffix of a document and are not left out.
-/

namespace Reindent
namespace Selection

/-- A file below a directory is a document of it. -/
def isDocumentBelow (extensions exclude : List String) (directory file : Location) : Bool :=
  let below : Path := { root := .none, names := file.drop directory.length }
  hasSuffix extensions below && !isSkipped exclude below

/-- The locations of the documents that a path stands for. -/
def documentsAt (tree : FileTree) (cwd : Location) (extensions exclude : List String)
    (path : Path) : Except Fault (List Location) := do
  match ← orCrash (tree.probe cwd path) with
  | none => throw (.noSuchPath path)
  | some (location, .file _) => return [location]
  | some (location, .directory) =>
    let files ← orCrash (tree.search path location)
    return files.filter (isDocumentBelow extensions exclude location)

/-- The documents that a list of paths stands for, in path order and each once. -/
def documents (tree : FileTree) (cwd : Location) (extensions exclude : List String)
    (paths : List Path) : Except Fault (List Path) := do
  let found ← paths.mapM (documentsAt tree cwd extensions exclude)
  return Path.sorted (found.flatten.map fun location => { root := .slash, names := location })

end Selection
end Reindent
