import Reindent.Selection.Exclusion

/-!
# Documents among changed files

Of the files that changed, those that belong to the watched places: a watched file itself, or a
file below a watched directory that a search of the directory would find.
-/

namespace Reindent
namespace Selection

/-- A changed file is a document of the watched places. -/
def isWatched (roots : List Path) (extensions exclude : List String) (path : Path) : Bool :=
  hasSuffix extensions path &&
    (roots.contains path || roots.any fun root =>
      match path.below? root with
      | some below => !isSkipped exclude below
      | none => false)

/-- The documents of the watched places among the changed files, in path order. -/
def ofChanges (roots : List Path) (extensions exclude : List String) (changed : List Path) :
    List Path :=
  Path.sorted (changed.filter (isWatched roots extensions exclude))

end Selection
end Reindent
