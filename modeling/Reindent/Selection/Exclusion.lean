import Reindent.Path.Basic
import Reindent.Path.Glob

/-!
# Which files are documents

A document is told by its suffix.  Below a directory that is searched, files inside the directories
of tools are left out, and so are those that an exclude pattern describes.  A pattern that starts
with `**/` also describes paths without the directories that it asks for.
-/

namespace Reindent
namespace Selection

/-- The directories of tools, which are never searched. -/
def toolDirectories : List String :=
  [".git", ".hg", ".svn", "node_modules", "__pycache__", ".venv", "venv"]

/-- A pattern and what is left of it after each leading `**/`. -/
def forms : Text → List Text
  | '*' :: '*' :: '/' :: rest => ('*' :: '*' :: '/' :: rest) :: forms rest
  | pattern => [pattern]

/-- A pattern excludes a path when one of its forms describes the path. -/
def excludes (pattern : String) (path : String) : Bool :=
  (forms pattern.toList).any fun form => Glob.matchesText form path.toList

def isExcluded (patterns : List String) (path : String) : Bool :=
  patterns.any fun pattern => excludes pattern path

/-- A path, read from a searched directory, is left out. -/
def isSkipped (patterns : List String) (path : Path) : Bool :=
  path.components.dropLast.any toolDirectories.contains || isExcluded patterns path.text

def hasSuffix (extensions : List String) (path : Path) : Bool :=
  extensions.contains path.suffix

end Selection
end Reindent
