import Reindent.Layout.Block

/-!
# Laying out a document

A document is laid out in one pass over its trimmed lines.  `State.next` says how a line changes the
state and `State.emitted` which lines it writes; the states do not depend on the unit of
indentation.  Every text has a layout: malformed markup only costs levels.  A state that is moved by
hand can have a level that no machine writes; `State.checkedEmitted` refuses it.
-/

namespace Reindent
namespace Layout

/-- Where a line stands: in the markup or inside a block. -/
inductive Region where
  | markup
  | inside (block : Block)
  deriving DecidableEq, Repr

/-- The lines held back for a block and the level of its opening marker. -/
structure Held where
  lines : List Text := []
  start : Nat := 0
  deriving DecidableEq, Repr

/-- The state between two lines. -/
structure State where
  /-- The level of the next line. -/
  level : Nat := 0
  region : Region := .markup
  /-- A tag-like line has been met in the markup. -/
  tagSeen : Bool := false
  script : Held := {}
  style : Held := {}
  deriving DecidableEq, Repr

namespace State

def held (st : State) : Block → Held
  | .script => st.script
  | .style => st.style

def withHeld (st : State) (block : Block) (held : Held) : State :=
  match block with
  | .script => { st with script := held }
  | .style => { st with style := held }

/-- The state with a line added to what is held back for a block. -/
def hold (st : State) (block : Block) (line : Text) : State :=
  st.withHeld block { st.held block with lines := (st.held block).lines ++ [line] }

/-- The state after the opening marker of a block.  Lines held back before are given up. -/
def enter (st : State) (block : Block) : State :=
  { st.withHeld block { lines := [], start := st.level } with
    level := st.level + 1
    region := .inside block }

/-- The state after the closing marker of a block, at the level of its opening marker. -/
def leave (st : State) (block : Block) : State :=
  { st.withHeld block { st.held block with lines := [] } with
    level := (st.held block).start
    region := .markup }

/-- The level at which a markup line stands. -/
def placement (st : State) (line : Text) : Nat :=
  match Line.kind st.tagSeen line with
  | .statement => if Line.startsWithAny Line.closers line then dedent st.level else st.level
  | .closingTag => dedent st.level
  | .other => if Line.closesGroup line then dedent st.level else st.level
  | .inlineElement | .selfClosing | .openingTag => st.level

/-- The level after a markup line. -/
def levelAfter (st : State) (line : Text) : Nat :=
  match Line.kind st.tagSeen line with
  | .statement => shift (st.placement line) (Line.levelChange line)
  | .openingTag => st.placement line + 1
  | .other => if Line.opensGroup line then st.placement line + 1 else st.placement line
  | .inlineElement | .selfClosing | .closingTag => st.placement line

/-- The state after a trimmed line. -/
def next (st : State) (line : Text) : State :=
  match marker? line with
  | some (.opens block) => st.enter block
  | some (.closes block) => st.leave block
  | none =>
    match st.region with
    | .inside block => st.hold block line
    | .markup =>
      if line = [] then st
      else
        { st with
          level := st.levelAfter line
          tagSeen := st.tagSeen || Line.isTagLike line }

/-- The lines written for a trimmed line. -/
def emitted (unit : Text) (st : State) (line : Text) : List Text :=
  match marker? line with
  | some (.opens _) => [indented unit st.level line]
  | some (.closes block) =>
    let held := st.held block
    bodyLines (block.body unit (held.start + 1) held.lines) ++ [indented unit held.start line]
  | none =>
    match st.region with
    | .inside _ => []
    | .markup => if line = [] then [[]] else [indented unit (st.placement line) line]

/-- The levels of the lines written for a trimmed line. -/
def levels (st : State) (line : Text) : List Int :=
  match marker? line with
  | some (.opens _) => [st.level]
  | some (.closes block) =>
    let held := st.held block
    block.levels (held.start + 1) held.lines ++ [(held.start : Int)]
  | none =>
    match st.region with
    | .inside _ => []
    | .markup => if line = [] then [] else [(st.placement line : Int)]

/-- The lines written for a trimmed line, if all their levels can be written. -/
def checkedEmitted (unit : Text) (st : State) (line : Text) (memory : Nat := Text.usualMemory) :
    Except Text.RepeatError (List Text) := do
  checkLevels unit (st.levels line) memory
  return st.emitted unit line

end State

/-- The lines written for trimmed lines, from a state on. -/
def run (unit : Text) : State → List Text → List Text
  | _, [] => []
  | st, line :: rest => st.emitted unit line ++ run unit (st.next line) rest

/-- The trimmed lines of a text, without the byte-order mark it may start with. -/
def trimmedLines (text : Text) : List Text :=
  (Text.dropMark text).lines.map Text.trim

/-- The layout of a text: each line behind the units of its level. -/
def format (unit : Text) (text : Text) : Text :=
  Text.unlines (run unit {} (trimmedLines text))

/-- The closing of a block: its marker, how many lines were held back, and the level it returns
to. -/
structure Closing where
  marker : Text
  held : Nat
  level : Nat
  deriving DecidableEq, Repr

/-- The block closings met on trimmed lines, from a state on. -/
def closings : State → List Text → List Closing
  | _, [] => []
  | st, line :: rest =>
    match marker? line with
    | some (.closes block) =>
      { marker := line, held := (st.held block).lines.length, level := (st.held block).start } ::
        closings (st.next line) rest
    | _ => closings (st.next line) rest

end Layout
end Reindent
