import Reindent.Text.Basic

/-!
# Line breaks

The lines of a text as a comparison shows them.  More characters than the newline break a line
here, a carriage return and a newline together break it once, and every line keeps its break.
-/

namespace Reindent
namespace Text

def isLineBreak (c : Char) : Bool :=
  ['\n', '\r', '\x0b', '\x0c', '\x1c', '\x1d', '\x1e', '\u0085', '\u2028', '\u2029'].contains c

/-- The lines of a text, each with its line break.  The empty text has no line. -/
def brokenLines : Text → List Text
  | [] => []
  | '\r' :: '\n' :: cs => ['\r', '\n'] :: brokenLines cs
  | c :: cs =>
    if isLineBreak c then [c] :: brokenLines cs
    else
      match brokenLines cs with
      | [] => [[c]]
      | l :: ls => (c :: l) :: ls

/-- The lines with their breaks make up the text. -/
theorem flatten_brokenLines (t : Text) : (brokenLines t).flatten = t := by
  fun_induction brokenLines t with
  | case1 => rfl
  | case2 cs ih => simp [ih]
  | case3 c cs _ _ ih => simp [ih]
  | case4 c cs _ _ h ih => rw [h] at ih; simp_all
  | case5 c cs _ _ l ls h ih => rw [h] at ih; simp_all

end Text
end Reindent
