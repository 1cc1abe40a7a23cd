import Reindent.Assist.Formatting
import Reindent.Text.Integer
import Reindent.Text.Quoted

/-!
# Reading line ranges

A range of lines is written as two numbers with a colon between them, or as one number for one
line.
-/

namespace Reindent
namespace Project

inductive LineRangeError where
  | notNumbers (text : String)
  | outOfOrder (text : String)
  deriving DecidableEq, Repr

def LineRangeError.message : LineRangeError → String
  | .notNumbers text => "Invalid line span " ++ Text.quotedString text ++ "; expected START:END."
  | .outOfOrder text =>
    "Invalid line span " ++ Text.quotedString text ++ "; need 1 <= START <= END."

/-- The two numbers of a range, the first one twice if there is no colon. -/
def lineNumbers? (t : Text) : Option (Int × Int) := do
  let first ← Text.integer? (t.takeWhile (· ≠ ':'))
  match t.dropWhile (· ≠ ':') with
  | [] => return (first, first)
  | _ :: after => return (first, ← Text.integer? after)

def lineRange (s : String) : Except LineRangeError Assist.LineRange :=
  match lineNumbers? s.toList with
  | none => .error (.notNumbers s)
  | some (first, last) =>
    if first < 1 || last < first then .error (.outOfOrder s) else .ok { first, last }

end Project
end Reindent
