import Reindent.Advice.Summary
import Reindent.Json.Basic

/-!
# Watch cycles

What one cycle of watching did: which documents changed, which of them were reformatted, which could
not be, and how long it took.
-/

namespace Reindent
namespace Watch

/-- A time in seconds, whole or not. -/
inductive Elapsed where
  | whole (seconds : Int)
  | real (seconds : Float)

/-- A time as it is reported: whole seconds as they are, others to two places. -/
def Elapsed.json : Elapsed → Json
  | .whole seconds => .int seconds
  | .real seconds => .real (Decimal.roundedTo 2 seconds)

structure Cycle where
  reformatted : List Path
  failed : Advice.Failures
  changed : List Path
  deriving DecidableEq, Repr

/-- The texts of a set of paths, in the order of the texts. -/
def sortedTexts (paths : List Path) : List String :=
  (paths.eraseDups.map Path.text).mergeSort fun a b => decide (a ≤ b)

/-- The report of a cycle that took some time. -/
def Cycle.json (cycle : Cycle) (elapsed : Elapsed) : Json :=
  .obj [("command", .str "watch"), ("ok", .bool cycle.failed.isEmpty),
    ("reformatted", .strings (sortedTexts cycle.reformatted)),
    ("failed", .obj (cycle.failed.sorted.map fun f => (f.1.text, .str f.2))),
    ("duration_s", elapsed.json), ("changed_paths", .strings (sortedTexts cycle.changed))]

end Watch
end Reindent
