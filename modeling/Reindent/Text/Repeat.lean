import Reindent.Text.Basic

/-!
# Repeating a text

A text can be repeated any number of times on paper.  A machine counts repetitions and characters in
words, and its memory is finite: `checkRepeat` says whether a repetition can be carried out with so
much memory.  A negative number of repetitions gives the empty text, and so does any number for the
empty text.
-/

namespace Reindent
namespace Text

def repeated (t : Text) (count : Nat) : Text :=
  if t = [] then [] else (List.replicate count t).flatten

/-- The empty text needs no work, but it is no exception. -/
theorem repeated_eq (t : Text) (count : Nat) :
    repeated t count = (List.replicate count t).flatten := by
  unfold repeated
  split
  · next h => simp [h]
  · rfl

theorem length_repeated (t : Text) (count : Nat) :
    (repeated t count).length = count * t.length := by
  simp [repeated_eq]

inductive RepeatError where
  /-- The number of repetitions is no machine word. -/
  | countTooLarge
  /-- The length of the result is no machine word. -/
  | resultTooLong
  /-- The result does not fit into memory. -/
  | outOfMemory
  deriving DecidableEq, Repr

def RepeatError.message : RepeatError → String
  | .countTooLarge => "cannot fit 'int' into an index-sized integer"
  | .resultTooLong => "repeated string is too long"
  | .outOfMemory => ""

/-- The first number past the machine words that count. -/
def wordLimit : Nat := Nat.pow 2 63

/-- The memory of a machine of which nothing else is said, in characters. -/
def usualMemory : Nat := Nat.pow 2 36

/-- A text can be repeated so many times, and the result fits into memory. -/
def checkRepeat (t : Text) (count : Int) (memory : Nat := usualMemory) : Except RepeatError Unit :=
  let length := count.toNat * t.length
  if count < -(wordLimit : Int) || (wordLimit : Int) ≤ count then .error .countTooLarge
  else if wordLimit ≤ length then .error .resultTooLong
  else if memory < length then .error .outOfMemory
  else .ok ()

end Text
end Reindent
