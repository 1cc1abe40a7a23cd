import Reindent.Layout.Block

/-!
# Project settings

What a project can choose: how lines are indented, which files are documents, and whether the tools
are served.
-/

namespace Reindent

inductive IndentStyle where
  | tab
  | space
  deriving DecidableEq, Repr

def IndentStyle.name : IndentStyle → String
  | .tab => "tab"
  | .space => "space"

def IndentStyle.all : List IndentStyle := [.tab, .space]

/-- The settings of a project.  The values given here hold where nothing is chosen. -/
structure Settings where
  version : Int := 1
  indentStyle : IndentStyle := .tab
  indentSize : Int := 4
  included : List String := ["."]
  excluded : List String := []
  extensions : List String := [".fubelt"]
  toolsEnabled : Bool := true
  deriving DecidableEq, Repr

/-- The unit of indentation, if it can be written. -/
def Settings.unit (settings : Settings) (memory : Nat := Text.usualMemory) :
    Except Text.RepeatError Text :=
  match settings.indentStyle with
  | .tab => .ok Layout.tab
  | .space => Layout.checkedSpaces settings.indentSize memory

/-- The version of the program; a copy that was never installed has none. -/
def programVersion (installed : Bool) : String :=
  if installed then "0.1.0" else "0.0.0"

end Reindent
