import Reindent.Path.Basic
import Reindent.Text.Basic

/-!
# Summaries of documents

The lists that a user sees after a run: the documents that would change, and those that could not
be read or written, each with what went wrong.
-/

namespace Reindent
namespace Advice

/-- Documents that failed, each with a message. -/
abbrev Failures := List (Path × String)

/-- The failures with one more; a message for the same document is replaced. -/
def Failures.record (failures : Failures) (path : Path) (message : String) : Failures :=
  if failures.any fun f => f.1 = path then
    failures.map fun f => if f.1 = path then (path, message) else f
  else failures ++ [(path, message)]

/-- A document that has not failed before is recorded behind the others. -/
theorem Failures.record_of_not_mem {failures : Failures} {path : Path}
    (h : path ∉ failures.map Prod.fst) (message : String) :
    failures.record path message = failures ++ [(path, message)] := by
  have hnone : (failures.any fun f => decide (f.1 = path)) = false := by
    rw [List.any_eq_false]
    intro f hf heq
    exact h (List.mem_map.mpr ⟨f, hf, of_decide_eq_true heq⟩)
  rw [record, hnone]
  rfl

/-- The failures in path order. -/
def Failures.sorted (failures : Failures) : Failures :=
  failures.mergeSort fun a b => a.1.le b.1

def trimEnd (s : String) : String :=
  String.ofList (Text.trimEnd s.toList)

/-- The documents that a check found to be unformatted. -/
def unformatted (paths : List Path) : String :=
  if paths = [] then ""
  else
    let heading := toString paths.length ++ " document(s) would be reformatted:\n"
    let rows := (paths.mergeSort Path.le).map fun path => "  " ++ path.text
    trimEnd ("\n".intercalate (heading :: rows)) ++ "\n"

def failed (failures : Failures) : String :=
  if failures = [] then ""
  else
    let heading := "Failed to format " ++ toString failures.length ++ " document(s):\n"
    let rows := failures.sorted.flatMap fun f =>
      ["  " ++ f.1.text ++ ":", "    - " ++ f.2, ""]
    trimEnd ("\n".intercalate (heading :: rows)) ++ "\n"

end Advice
end Reindent
