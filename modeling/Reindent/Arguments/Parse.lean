import Reindent.Arguments.Reading
import Reindent.Text.Integer

/-!
# Parsing a command line

Options take effect in the order in which they stand.  Operands are taken from the first unbroken
run of them; what is left over is kept, to be refused at the very end.
-/

namespace Reindent
namespace Arguments

/-- The effect of one option. -/
inductive Given where
  | on
  /-- The mark that ends the options stood in place of a value. -/
  | blank
  | text (value : String)
  | integer (n : Int)
  deriving DecidableEq, Repr

/-- What was chosen by an option that takes a value: nothing, no more than the option itself, or a
value. -/
inductive Choice (α : Type) where
  | absent
  | blank
  | value (a : α)
  deriving DecidableEq, Repr

def Choice.value? {α : Type} : Choice α → Option α
  | .value a => some a
  | .absent | .blank => none

structure Parsed where
  /-- The options given, each under its key, in order. -/
  given : List (String × Given) := []
  /-- The operands taken, none as long as none were. -/
  operands : Option (List String) := none
  leftover : List String := []
  deriving DecidableEq, Repr

/-- An option to take effect, with the value attached to it. -/
structure Action where
  spec : OptionSpec
  value : Option String
  deriving DecidableEq, Repr

/-- The options in one argument, and the last of them if it waits for the next argument. -/
structure Expansion where
  actions : List Action := []
  waiting : Option OptionSpec := none
  deriving DecidableEq, Repr

def isShort (name : Text) : Bool :=
  match name with
  | _ :: c :: _ => c ≠ '-'
  | _ => false

/-- The options in one argument.  Text attached to a short option without a value is read as more
short options; the fuel bounds their number. -/
def expand (g : Grammar) : Nat → Found → Except UsageError Expansion
  | 0, _ => .ok {}
  | fuel + 1, { spec, name, attached } =>
    match spec.kind.takesValue, attached with
    | true, none => .ok { waiting := some spec }
    | true, some value => .ok { actions := [{ spec, value := some (String.ofList value) }] }
    | false, none => .ok { actions := [{ spec, value := none }] }
    | false, some value =>
      let refused := .error (.valueIgnored spec.title (String.ofList value))
      match isShort name, value with
      | true, c :: rest =>
        match g.option? ['-', c] with
        | none => refused
        | some next => do
          let attached := if rest = [] then none else some rest
          let more ← expand g fuel { spec := next, name := ['-', c], attached }
          return { more with actions := { spec, value := none } :: more.actions }
      | _, _ => refused

/-- The parse after one option has taken effect.  An attached mark that ends the options is dropped
before the value is looked at. -/
def act (g : Grammar) (p : Parsed) (action : Action) : Except Stop Parsed :=
  let record (given : Given) : Except Stop Parsed :=
    .ok { p with given := p.given ++ [(action.spec.key, given)] }
  let value := action.value.getD ""
  match action.spec.kind with
  | .help => .error (.help g)
  | .version => .error .version
  | .switch => record .on
  | .text => record (if value = endMark then .blank else .text value)
  | .integer =>
    if value = endMark then record .blank else
    match Text.integer? value.toList with
    | some n => record (.integer n)
    | none => .error (.misuse g (.notInteger action.spec.title value))

def texts (arguments : List Argument) : List String :=
  arguments.map fun a => a.text

/-- How many arguments the operands of a grammar take from the front of the rest, and the operands
themselves; nothing if they cannot be taken there. -/
def takeOperands (g : Grammar) (rest : List Argument) : Option (Nat × List String) :=
  let isMark (a : Argument) : Bool := a.reading = .endOfOptions
  let run := rest.takeWhile fun a => !a.isOption
  match g.operands with
  | .none => none
  | .many => some (run.length, texts (run.filter fun a => !isMark a))
  | .one _ =>
    let marks := run.takeWhile isMark
    match run.dropWhile isMark with
    | [] => none
    | a :: after =>
      some (marks.length + 1 + (after.takeWhile isMark).length, [a.text])
  | .command .. =>
    if (run.dropWhile isMark).isEmpty then none else some (rest.length, texts rest)

/-- The parse after operands have been taken where they can be, and how many arguments that took. -/
def operandsAt (g : Grammar) (p : Parsed) (rest : List Argument) : Except Stop (Parsed × Nat) :=
  match p.operands with
  | some _ => .ok (p, 0)
  | none =>
    match takeOperands g rest with
    | none => .ok (p, 0)
    | some (count, operands) =>
      match g.operands, operands with
      | .command title choices, name :: _ =>
        if choices.contains name then .ok ({ p with operands := some operands }, count)
        else .error (.misuse g (.unknownChoice title name choices))
      | _, _ => .ok ({ p with operands := some operands }, count)

/-- The parse after the option at the front of the rest, and how many arguments it took. -/
def optionAt (g : Grammar) (p : Parsed) (a : Argument) (after : List Argument) :
    Except Stop (Parsed × Nat) :=
  match a.reading with
  | .option found => do
    let expansion ← (expand g (a.text.length + 1) found).mapError (.misuse g)
    let (actions, count) ← match expansion.waiting, after with
      | none, _ => pure (expansion.actions, 1)
      | some spec, next :: _ =>
        if next.reading = .operand then
          pure (expansion.actions ++ [{ spec, value := some next.text }], 2)
        else throw (.misuse g (.valueMissing spec.title))
      | some spec, [] => throw (.misuse g (.valueMissing spec.title))
    return (← actions.foldlM (act g) p, count)
  | _ => .ok ({ p with leftover := p.leftover ++ [a.text] }, 1)

/-- The parse of the rest of a command line.  The fuel bounds the number of steps; a step takes at
least one argument. -/
def parseRest (g : Grammar) : Nat → Parsed → List Argument → Except Stop Parsed
  | 0, p, _ => .ok p
  | fuel + 1, p, rest =>
    if !rest.any Argument.isOption then do
      let (p, count) ← operandsAt g p rest
      return { p with leftover := p.leftover ++ texts (rest.drop count) }
    else
      match rest with
      | [] => .ok p
      | a :: after =>
        if a.isOption then do
          let (p, count) ← optionAt g p a after
          parseRest g fuel p (rest.drop count)
        else do
          let (p, count) ← operandsAt g p rest
          if 0 < count then parseRest g fuel p (rest.drop count)
          else
            let stray := rest.takeWhile fun b => !b.isOption
            parseRest g fuel { p with leftover := p.leftover ++ texts stray }
              (rest.drop stray.length)

def parse (g : Grammar) (arguments : List String) : Except Stop Parsed := do
  let all ← (readAll g arguments).mapError (.misuse g)
  let p ← parseRest g (all.length + 1) {} all
  match g.operands, p.operands with
  | .one title, none => throw (.misuse g (.operandMissing title))
  | .command title _, none => throw (.misuse g (.operandMissing title))
  | _, _ => return p

def Parsed.isOn (p : Parsed) (key : String) : Bool :=
  p.given.any fun given => given.1 = key

def Parsed.last? (p : Parsed) (key : String) : Option Given :=
  p.given.reverse.lookup key

def Parsed.text (p : Parsed) (key : String) : Choice String :=
  match p.last? key with
  | none => .absent
  | some (.text value) => .value value
  | some _ => .blank

def Parsed.integer (p : Parsed) (key : String) : Choice Int :=
  match p.last? key with
  | none => .absent
  | some (.integer n) => .value n
  | some _ => .blank

end Arguments
end Reindent
