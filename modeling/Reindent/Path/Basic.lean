/-!
# Paths

A path is a root and a list of names.  Repeated slashes, single dots and a final slash do not count;
two dots stay a name of their own.  Exactly two leading slashes make a root that differs from a
single one.  Paths are ordered by their components, of which the root is the first.
-/

namespace Reindent

inductive PathRoot where
  | none
  | slash
  | doubleSlash
  deriving DecidableEq, Repr

def PathRoot.text : PathRoot → String
  | .none => ""
  | .slash => "/"
  | .doubleSlash => "//"

/-- A path in normal form. -/
structure Path where
  root : PathRoot
  names : List String
  deriving DecidableEq, Repr

namespace Path

/-- The pieces of a text between slashes. -/
def pieces : List Char → List (List Char)
  | [] => [[]]
  | c :: cs =>
    if c = '/' then [] :: pieces cs
    else
      match pieces cs with
      | [] => [[c]]
      | p :: ps => (c :: p) :: ps

def rootOf (text : List Char) : PathRoot :=
  match (text.takeWhile (· = '/')).length with
  | 0 => .none
  | 2 => .doubleSlash
  | _ => .slash

/-- The path that a text stands for. -/
def ofString (s : String) : Path :=
  { root := rootOf s.toList
    names := ((pieces s.toList).filter fun p => !p.isEmpty && p ≠ ['.']).map String.ofList }

/-- The text of a path; a path without root and names is a single dot. -/
def text (p : Path) : String :=
  if p.root = .none && p.names = [] then "." else p.root.text ++ "/".intercalate p.names

/-- The components that paths are compared by. -/
def components (p : Path) : List String :=
  match p.root with
  | .none => p.names
  | root => root.text :: p.names

/-- Paths are ordered by their components, and these by their characters. -/
def le (p q : Path) : Bool :=
  !q.components.lex p.components fun a b => decide (a < b)

/-- Paths in increasing order, each once. -/
def sorted (ps : List Path) : List Path :=
  ps.eraseDups.mergeSort le

/-- A path read from a place; an absolute path stays as it is. -/
def join (p q : Path) : Path :=
  match q.root with
  | .none => { p with names := p.names ++ q.names }
  | _ => q

def child (p : Path) (name : String) : Path :=
  { p with names := p.names ++ [name] }

def parent (p : Path) : Path :=
  { p with names := p.names.dropLast }

/-- The last name of a path, empty if there is none. -/
def name (p : Path) : String :=
  p.names.getLast?.getD ""

def isAbsolute (p : Path) : Bool :=
  p.root ≠ .none

/-- The suffix of a name: from its last dot on, unless that dot is its first or its last
character. -/
def suffixOf (name : List Char) : List Char :=
  let after := (name.reverse.takeWhile (· ≠ '.')).reverse
  if after = [] || name.length ≤ after.length + 1 then [] else '.' :: after

/-- The suffix of the last name of a path. -/
def suffix (p : Path) : String :=
  String.ofList (suffixOf p.name.toList)

/-- The relative path that leads from one path to another below it. -/
def below? (p ancestor : Path) : Option Path :=
  if p.root = ancestor.root && ancestor.names.isPrefixOf p.names then
    some { root := .none, names := p.names.drop ancestor.names.length }
  else none

/-- Names with every pair of a name and two dots taken out.  Two dots at the front are dropped. -/
def withoutDots (names : List String) : List String :=
  (names.foldl (fun kept name => if name = ".." then kept.drop 1 else name :: kept) []).reverse

/-- The absolute path without two dots that a path stands for, read from a working directory. -/
def resolve (p cwd : Path) : Path :=
  { root := .slash, names := withoutDots (cwd.join p).names }

end Path
end Reindent
