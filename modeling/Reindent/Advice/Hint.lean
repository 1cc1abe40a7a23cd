import Reindent.Text.Basic

/-!
# Error reports and hints

How an error is shown to a user: its message, and a hint where there is something to do about it.
-/

namespace Reindent
namespace Advice

/-- What an error is about. -/
inductive Subject where
  | settings
  | selection
  | document
  | other
  deriving DecidableEq, Repr

/-- A text in ASCII lower case. -/
def lowered (t : Text) : Text :=
  t.map Char.toLower

def hint? (subject : Subject) (message : String) : Option String :=
  let mentions (part : String) := Text.includes part.toList message.toList
  match subject with
  | .settings =>
    if mentions "fubelt.toml" && Text.includes "find".toList (lowered message.toList) then
      some "create a fubelt.toml with \x60version = 1\x60 at the project root, or pass --config"
    else if mentions "indent_style" then
      some "use indent_style = \"tab\" or indent_style = \"space\""
    else none
  | .selection =>
    some "check the paths passed on the command line and paths.include in fubelt.toml"
  | .document =>
    if mentions "UTF-8" then
      some "Fubelt documents are read as UTF-8; re-save the file with that encoding"
    else none
  | .other => none

/-- An error as a user sees it, with the hint for it, if there is one. -/
def withHint (message : String) (hint : Option String) : String :=
  let first := "error: " ++ String.ofList (Text.trim message.toList)
  match hint with
  | none => first
  | some hint => first ++ "\nhint: " ++ hint

/-- An error as a user sees it.  `fallback` stands for an empty message. -/
def report (subject : Subject) (message fallback : String) : String :=
  withHint (if message = "" then fallback else message) (hint? subject message)

end Advice
end Reindent
