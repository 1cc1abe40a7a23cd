import Reindent.Patch.Script
import Reindent.Text.LineBreak

/-!
# Hunks

A patch shows the changed lines with up to three lines of context around them.  Changes whose
contexts touch share a hunk.  Every hunk says which lines of the old and of the new text it covers.
-/

namespace Reindent
namespace Patch

/-- How many lines of context stand around a change. -/
def context : Nat := 3

/-- A piece and the indices of its first lines in the old and in the new text. -/
structure Placed where
  oldStart : Nat
  newStart : Nat
  piece : Piece
  deriving DecidableEq, Repr

/-- Pieces with their places, from two indices on. -/
def place : Nat → Nat → List Piece → List Placed
  | _, _, [] => []
  | oldStart, newStart, piece :: rest =>
    { oldStart, newStart, piece } ::
      place (oldStart + piece.old.length) (newStart + piece.new.length) rest

/-- A stretch that stays, from a line of it on. -/
def Placed.dropLines (p : Placed) (count : Nat) : Placed :=
  match p.piece with
  | .same lines =>
    { oldStart := p.oldStart + count
      newStart := p.newStart + count
      piece := .same (lines.drop count) }
  | .change .. => p

/-- A stretch that stays, up to a number of lines. -/
def Placed.takeLines (p : Placed) (count : Nat) : Placed :=
  match p.piece with
  | .same lines => { p with piece := .same (lines.take count) }
  | .change .. => p

/-- Only the context before the first change. -/
def trimFront : List Placed → List Placed
  | [] => []
  | p :: rest => p.dropLines (p.piece.old.length - context) :: rest

/-- Only the context after the last change. -/
def trimBack : List Placed → List Placed
  | [] => []
  | [p] => [p.takeLines context]
  | p :: rest => p :: trimBack rest

/-- The piece takes lines out or puts lines in. -/
def Placed.isChange (p : Placed) : Bool :=
  match p.piece with
  | .same _ => false
  | .change .. => true

/-- Pieces in groups: a stretch that is too long to be context on both sides ends a group with its
first lines and starts the next with its last ones. -/
def groups : List Placed → List Placed → List (List Placed)
  | group, [] => if group.any Placed.isChange then [group] else []
  | group, p :: rest =>
    let size := p.piece.old.length
    if !p.isChange && decide (2 * context < size) then
      (group ++ [p.takeLines context]) :: groups [p.dropLines (size - context)] rest
    else groups (group ++ [p]) rest

/-- A group of pieces and the lines that it covers. -/
structure Hunk where
  oldStart : Nat
  newStart : Nat
  pieces : List Piece
  deriving DecidableEq, Repr

def Hunk.ofGroup (group : List Placed) : Hunk :=
  { oldStart := (group.head?.map Placed.oldStart).getD 0
    newStart := (group.head?.map Placed.newStart).getD 0
    pieces := group.map Placed.piece }

def Hunk.oldSize (hunk : Hunk) : Nat :=
  (hunk.pieces.flatMap fun piece => piece.old).length

def Hunk.newSize (hunk : Hunk) : Nat :=
  (hunk.pieces.flatMap fun piece => piece.new).length

def hunksOf (pieces : List Piece) : List Hunk :=
  (groups [] (trimBack (trimFront (place 0 0 pieces)))).map Hunk.ofGroup

/-- The hunks that lead from the old to the new lines. -/
def hunks (old new : List Text) : List Hunk :=
  hunksOf (script old new)

/-- Lines from an index on, counted from one.  The size is left out when it is one, and no lines
are said to stand at the line before them. -/
def rangeText (start size : Nat) : String :=
  if size = 1 then toString (start + 1)
  else if size = 0 then toString start ++ "," ++ toString size
  else toString (start + 1) ++ "," ++ toString size

/-- The lines of a piece, each behind a sign. -/
def Piece.text : Piece → Text
  | .same lines => lines.flatMap (' ' :: ·)
  | .change removed added => removed.flatMap ('-' :: ·) ++ added.flatMap ('+' :: ·)

/-- A hunk with its header.  Lines are written with the breaks they have, if any. -/
def Hunk.text (hunk : Hunk) : Text :=
  ("@@ -" ++ rangeText hunk.oldStart hunk.oldSize ++ " +" ++ rangeText hunk.newStart hunk.newSize
    ++ " @@\n").toList ++ hunk.pieces.flatMap Piece.text

/-- The patch that leads from one text to another, empty when there is nothing to show. -/
def text (path : String) (old new : Text) : Text :=
  match hunks old.brokenLines new.brokenLines with
  | [] => []
  | all =>
    ("--- " ++ path ++ " (original)\n+++ " ++ path ++ " (formatted)\n").toList
      ++ all.flatMap Hunk.text

end Patch
end Reindent
