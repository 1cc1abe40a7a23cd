import Reindent.FileTree.Basic
import Reindent.Text.Quoted
import Reindent.Text.Repeat

/-!
# Asking for files

Whether a path names a file or a directory.  A path that leads nowhere names neither; only a name
that is too long is an error.  A path with a null character leads nowhere, but it cannot be opened
or resolved either.
-/

namespace Reindent

/-- An error that stops a command wherever it arises. -/
inductive Crash where
  /-- The path cannot be looked up. -/
  | lookup (error : FileError) (path : Path)
  /-- A path with a null character was to be opened or resolved. -/
  | nullInPath
  /-- The standard input is not UTF-8. -/
  | inputNotText
  /-- A number of the settings file has too many digits to be read. -/
  | numberTooLong (digits : Nat)
  /-- A number of the settings file has too many digits to be shown. -/
  | numberNotShown
  /-- Values of the settings file are nested too deep. -/
  | nestedTooDeep
  /-- A range of lines was asked for without a value. -/
  | blankRange
  /-- An offset was asked for without a value. -/
  | blankOffset
  /-- A line or a column was asked for without a value. -/
  | blankPosition
  /-- The unit of indentation cannot be written. -/
  | indentation (cause : Text.RepeatError)
  deriving DecidableEq, Repr

def Crash.message : Crash → String
  | .lookup error path =>
    "[Errno " ++ toString error.number ++ "] " ++ error.text ++ ": " ++ Text.quotedString path.text
  | .nullInPath => "embedded null byte"
  | .inputNotText => "standard input is not valid UTF-8"
  | .numberTooLong digits =>
    "Exceeds the limit (4300 digits) for integer string conversion: value has " ++ toString digits
      ++ " digits; use sys.set_int_max_str_digits() to increase the limit"
  | .numberNotShown =>
    "Exceeds the limit (4300 digits) for integer string conversion; use "
      ++ "sys.set_int_max_str_digits() to increase the limit"
  | .nestedTooDeep => "maximum recursion depth exceeded"
  | .blankRange => "'list' object has no attribute 'partition'"
  | .blankOffset => "'>' not supported between instances of 'list' and 'int'"
  | .blankPosition => "unsupported operand type(s) for -: 'list' and 'int'"
  | .indentation cause => cause.message

def Path.hasNull (path : Path) : Bool :=
  path.names.any fun name => name.toList.contains '\x00'

/-- The absolute path without two dots that a path stands for. -/
def Path.resolved (cwd : Location) (path : Path) : Except Crash Path :=
  if path.hasNull then .error .nullInPath
  else .ok (path.resolve { root := .slash, names := cwd })

namespace FileTree

/-- What a path names, if anything. -/
def probe (tree : FileTree) (cwd : Location) (path : Path) :
    Except Crash (Option (Location × Node)) :=
  if path.hasNull then .ok none
  else
    match tree.locate cwd path with
    | .ok location => .ok ((tree.node? location).map fun node => (location, node))
    | .error .nameTooLong => .error (.lookup .nameTooLong path)
    | .error _ => .ok none

def isFile (tree : FileTree) (cwd : Location) (path : Path) : Except Crash Bool := do
  match ← tree.probe cwd path with
  | some (_, .file _) => return true
  | _ => return false

def isDirectory (tree : FileTree) (cwd : Location) (path : Path) : Except Crash Bool := do
  match ← tree.probe cwd path with
  | some (_, .directory) => return true
  | _ => return false

/-- The path is too long to be looked up. -/
def isTooLong (path : Path) : Bool :=
  pathLimit < path.text.utf8ByteSize

/-- The files below a directory that a path leads to.  A search looks up whatever stands there, each
by the path that goes on from the given one, and a path that gets too long ends it.  What is nearer
is looked up first. -/
def search (tree : FileTree) (path : Path) (directory : Location) : Except Crash (List Location) :=
  let paths := (tree.nodesBelow directory).map fun location =>
    path.join { root := .none, names := location.drop directory.length }
  match (paths.filter isTooLong).minOn? fun long => long.names.length with
  | some long => .error (.lookup .nameTooLong long)
  | none => .ok (tree.filesBelow directory)

/-- The path names a file or a directory. -/
def isPresent (tree : FileTree) (cwd : Location) (path : Path) : Except Crash Bool := do
  return (← tree.probe cwd path).isSome

end FileTree
end Reindent
