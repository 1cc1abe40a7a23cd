import Reindent.Line.Kind
import Reindent.Text.Repeat

/-!
# Script and style blocks

A block is opened and closed by marker lines of its own.  Its lines are held back until it closes
and are then laid out as a whole, with levels of their own that start at zero.  Which level a line
has does not depend on the unit of indentation, so the levels come first (`Block.placed`) and the
text after them (`Block.body`).
-/

namespace Reindent
namespace Layout

inductive Block where
  | script
  | style
  deriving DecidableEq, Repr

/-- A line that opens or closes a block. -/
inductive Marker where
  | opens (block : Block)
  | closes (block : Block)
  deriving DecidableEq, Repr

/-- The marker that a trimmed line is, if it is one. -/
def marker? (line : Text) : Option Marker :=
  if line = "<script>".toList then some (.opens .script)
  else if line = "</script>".toList then some (.closes .script)
  else if line = "<style>".toList then some (.opens .style)
  else if line = "</style>".toList then some (.closes .style)
  else none

def tab : Text := ['\t']

/-- As many spaces as the number says, none for a negative number. -/
def spaces (count : Int) : Text :=
  List.replicate count.toNat ' '

/-- So many spaces, if there can be so many. -/
def checkedSpaces (count : Int) (memory : Nat := Text.usualMemory) :
    Except Text.RepeatError Text := do
  Text.checkRepeat [' '] count memory
  return spaces count

/-- A line behind as many units as its level says. -/
def indented (unit : Text) (level : Nat) (line : Text) : Text :=
  Text.repeated unit level ++ line

/-- All levels can be written with a unit. -/
def checkLevels (unit : Text) (levels : List Int) (memory : Nat := Text.usualMemory) :
    Except Text.RepeatError Unit :=
  levels.forM fun level => Text.checkRepeat unit level memory

/-- A line of a block at its level; a level below zero is written like zero.  Blank lines have no
level. -/
inductive Placed where
  | blank
  | line (level : Int) (text : Text)
  deriving DecidableEq, Repr

def Placed.level? : Placed → Option Int
  | .blank => none
  | .line level _ => some level

def Placed.indented (unit : Text) : Placed → Text
  | .blank => []
  | .line level text => Layout.indented unit level.toNat text

/-- One level less, at zero none. -/
def dedent (level : Nat) : Nat :=
  level - 1

/-- The level moved by a change, never below zero. -/
def shift (level : Nat) (change : Int) : Nat :=
  (level + change).toNat

/-- A line of a style sheet opens a rule when it has an opening brace and no closing one. -/
def opensRule (line : Text) : Bool :=
  line.contains '{' && !line.contains '}'

/-- The brackets that take a line of a block one level back. -/
def Block.closers : Block → List Char
  | .script => Line.closers
  | .style => ['}']

/-- The level at which a line of a block stands. -/
def Block.placement (block : Block) (level : Nat) (line : Text) : Nat :=
  if Line.startsWithAny block.closers line then dedent level else level

/-- The level after a line of a block. -/
def Block.levelAfter (block : Block) (level : Nat) (line : Text) : Nat :=
  let placed := block.placement level line
  match block with
  | .script => shift placed (Line.levelChange line)
  | .style => if opensRule line then placed + 1 else placed

/-- The lines of a block from a level on; `base` is added to every level. -/
def Block.placedFrom (block : Block) (base : Int) : Nat → List Text → List Placed
  | _, [] => []
  | level, line :: rest =>
    let trimmed := Text.trim line
    if trimmed = [] then .blank :: block.placedFrom base level rest
    else
      .line (base + block.placement level trimmed) trimmed ::
        block.placedFrom base (block.levelAfter level trimmed) rest

/-- The lines of a block's body at their levels, all raised by `base`. -/
def Block.placed (block : Block) (base : Int) (lines : List Text) : List Placed :=
  block.placedFrom base 0 lines

def Block.levels (block : Block) (base : Int) (lines : List Text) : List Int :=
  (block.placed base lines).filterMap Placed.level?

/-- The text of a block's body, laid out with all levels raised by `base`. -/
def Block.body (block : Block) (unit : Text) (base : Int) (lines : List Text) : Text :=
  Text.unlines ((block.placed base lines).map (Placed.indented unit))

/-- The text of a block's body, if all its levels can be written. -/
def Block.checkedBody (block : Block) (unit : Text) (base : Int) (lines : List Text)
    (memory : Nat := Text.usualMemory) : Except Text.RepeatError Text := do
  checkLevels unit (block.levels base lines) memory
  return block.body unit base lines

/-- The lines of a laid-out body.  Empty lines stay only when two newlines follow each other
somewhere in it. -/
def bodyLines (body : Text) : List Text :=
  body.lines.filter fun line => !line.isEmpty || Text.includes ['\n', '\n'] body

end Layout
end Reindent
