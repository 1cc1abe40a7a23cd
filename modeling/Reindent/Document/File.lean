import Reindent.Assist.Formatting
import Reindent.Patch.Hunk
import Reindent.Project.Error
import Reindent.Text.Encoding

/-!
# Documents in files

Reading, comparing and reformatting the documents of a file tree.  A document is written back only
when formatting changes its text, so one that differs only in its line ends or its byte-order mark
stays as it is.
-/

namespace Reindent
namespace Document

/-- The text of the document at a path. -/
def read (tree : FileTree) (cwd : Location) (path : Path) : Except Fault Text :=
  if path.hasNull then .error (.crash .nullInPath)
  else
    match tree.read cwd path with
    | .error cause => .error (.document (.notRead path cause))
    | .ok bytes =>
      match Text.ofDocument? bytes with
      | none => .error (.document (.notText path))
      | some t => .ok t

/-- The tree with a text written at a path. -/
def write (tree : FileTree) (cwd : Location) (path : Path) (text : Text) :
    Except Fault FileTree :=
  if path.hasNull then .error (.crash .nullInPath)
  else
    match tree.write cwd path text.toUtf8 with
    | .error cause => .error (.document (.notWritten path cause))
    | .ok tree => .ok tree

/-- A document before and after formatting. -/
structure Comparison where
  path : Path
  before : Text
  formatted : Text
  deriving DecidableEq, Repr

def Comparison.changed (c : Comparison) : Bool :=
  decide (c.formatted ≠ c.before)

def Comparison.patch (c : Comparison) : Text :=
  Patch.text c.path.text c.before c.formatted

/-- How documents are formatted, and whether they are written back. -/
structure Formatting where
  unit : Text := Layout.tab
  range : Option Assist.LineRange := none
  write : Bool := true
  deriving DecidableEq, Repr

def compare (tree : FileTree) (cwd : Location) (how : Formatting) (path : Path) :
    Except Fault Comparison := do
  let before ← read tree cwd path
  return { path, before, formatted := Assist.formatText how.unit how.range before }

/-- Format a document: the comparison, and the tree with the document written back. -/
def format (tree : FileTree) (cwd : Location) (how : Formatting) (path : Path) :
    Except Fault (Comparison × FileTree) := do
  let comparison ← compare tree cwd how path
  if comparison.changed && how.write then
    return (comparison, ← write tree cwd path comparison.formatted)
  else return (comparison, tree)

end Document
end Reindent
