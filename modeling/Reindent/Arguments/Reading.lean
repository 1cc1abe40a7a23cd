import Reindent.Arguments.Grammar
import Reindent.Text.Digit

/-!
# Reading single arguments

Every argument is first read on its own: as an option of the grammar, as an unknown option, as an
operand, or as the mark that ends the options.  The name of a long option may be cut short as long
as only one option fits.
-/

namespace Reindent
namespace Arguments

structure Found where
  spec : OptionSpec
  name : Text
  /-- The text attached to the name in the same argument, directly or after an equals sign. -/
  attached : Option Text
  deriving DecidableEq, Repr

inductive Reading where
  | operand
  | endOfOptions
  | option (found : Found)
  | unknownOption
  deriving DecidableEq, Repr

def Grammar.option? (g : Grammar) (name : Text) : Option OptionSpec :=
  g.named.lookup (String.ofList name)

/-- What stands before the first equals sign, and what stands after it if there is one. -/
def splitEquals (t : Text) : Text × Option Text :=
  match t.dropWhile (· ≠ '=') with
  | [] => (t, none)
  | _ :: value => (t.takeWhile (· ≠ '='), some value)

/-- The options that an argument may stand for, in the order of the grammar.  A long option may be
cut short.  A short option may have text joined to it. -/
def candidates (g : Grammar) (t : Text) : List Found :=
  match t with
  | '-' :: '-' :: _ =>
    let (front, value) := splitEquals t
    g.named.filterMap fun (name, spec) =>
      if front.isPrefixOf name.toList then
        some { spec, name := name.toList, attached := value }
      else none
  | _ =>
    g.named.filterMap fun (name, spec) =>
      if name.toList = t.take 2 then
        some { spec, name := name.toList, attached := some (t.drop 2) }
      else if t.isPrefixOf name.toList then
        some { spec, name := name.toList, attached := none }
      else none

/-- The text looks like a negative number, but for one final newline. -/
def looksNegative (t : Text) : Bool :=
  match t with
  | '-' :: rest =>
    let body := if ['\n'].isSuffixOf rest then rest.dropLast else rest
    let front := body.takeWhile isDecimalDigit
    match body.dropWhile isDecimalDigit with
    | [] => !front.isEmpty
    | '.' :: decimals => !decimals.isEmpty && decimals.all isDecimalDigit
    | _ => false
  | _ => false

/-- An argument that starts with a hyphen and is no name of an option. -/
def readHyphened (g : Grammar) (t : Text) : Except UsageError Reading :=
  let (front, value) := splitEquals t
  match value, g.option? front with
  | some v, some spec => .ok (.option { spec, name := front, attached := some v })
  | _, _ =>
    match candidates g t with
    | [found] => .ok (.option found)
    | [] => .ok (if looksNegative t || t.contains ' ' then .operand else .unknownOption)
    | several =>
      .error (.ambiguous (String.ofList t) (several.map fun found => String.ofList found.name))

/-- How an argument before the end of the options is read.  A single hyphen is an operand. -/
def readArgument (g : Grammar) (t : Text) : Except UsageError Reading :=
  match t with
  | '-' :: rest =>
    match g.option? t with
    | some spec => .ok (.option { spec, name := t, attached := none })
    | none => if rest = [] then .ok .operand else readHyphened g t
  | _ => .ok .operand

structure Argument where
  text : String
  reading : Reading
  deriving DecidableEq, Repr

/-- The argument is an option, known or not. -/
def Argument.isOption (a : Argument) : Bool :=
  match a.reading with
  | .option _ | .unknownOption => true
  | .operand | .endOfOptions => false

/-- All arguments with how they are read.  After the mark that ends the options, all are
operands. -/
def readAll (g : Grammar) : List String → Except UsageError (List Argument)
  | [] => .ok []
  | text :: rest =>
    if text = endMark then
      .ok ({ text, reading := .endOfOptions } ::
        rest.map fun t => { text := t, reading := .operand })
    else do
      let reading ← readArgument g text.toList
      return { text, reading } :: (← readAll g rest)

end Arguments
end Reindent
