import Reindent.Text.Quoted

/-!
# Command-line grammars

What a command understands on its command line: options with one or more names, which may take a
value, and operands.  The usage line and the help text are part of the grammar.
-/

namespace Reindent
namespace Arguments

inductive OptionKind where
  | help
  | version
  | switch
  | text
  | integer
  deriving DecidableEq, Repr

/-- The mark that ends the options. -/
def endMark : String := "--"

def OptionKind.takesValue : OptionKind → Bool
  | .text | .integer => true
  | .help | .version | .switch => false

/-- An option with its names, the short one first. -/
structure OptionSpec where
  names : List String
  kind : OptionKind
  deriving DecidableEq, Repr

/-- How an option is called in messages. -/
def OptionSpec.title (spec : OptionSpec) : String :=
  "/".intercalate spec.names

/-- The name under which an option is looked up: the last of its names. -/
def OptionSpec.key (spec : OptionSpec) : String :=
  spec.names.getLast?.getD ""

/-- What stands on a command line besides options. -/
inductive Operands where
  | none
  | one (title : String)
  | many
  /-- The name of a command; everything after it belongs to that command. -/
  | command (title : String) (choices : List String)
  deriving DecidableEq, Repr

structure Grammar where
  program : String
  usage : String
  details : String
  options : List OptionSpec
  operands : Operands
  deriving DecidableEq, Repr

def Grammar.help (g : Grammar) : String :=
  g.usage ++ "\n\n" ++ g.details ++ "\n"

/-- All names of options, each with its option, in the order of the grammar. -/
def Grammar.named (g : Grammar) : List (String × OptionSpec) :=
  g.options.flatMap fun spec => spec.names.map fun name => (name, spec)

/-- Why a command line is refused. -/
inductive UsageError where
  | ambiguous (argument : String) (candidates : List String)
  | valueIgnored (option : String) (value : String)
  | valueMissing (option : String)
  | notInteger (option : String) (value : String)
  | unknownChoice (operand : String) (value : String) (choices : List String)
  | operandMissing (operand : String)
  | unrecognized (arguments : List String)
  deriving DecidableEq, Repr

def UsageError.message : UsageError → String
  | .ambiguous argument candidates =>
    "ambiguous option: " ++ argument ++ " could match " ++ ", ".intercalate candidates
  | .valueIgnored option value =>
    "argument " ++ option ++ ": ignored explicit argument " ++ Text.quotedString value
  | .valueMissing option => "argument " ++ option ++ ": expected one argument"
  | .notInteger option value =>
    "argument " ++ option ++ ": invalid int value: " ++ Text.quotedString value
  | .unknownChoice operand value choices =>
    "argument " ++ operand ++ ": invalid choice: " ++ Text.quotedString value ++ " (choose from "
      ++ ", ".intercalate (choices.map Text.quotedString) ++ ")"
  | .operandMissing operand => "the following arguments are required: " ++ operand
  | .unrecognized arguments => "unrecognized arguments: " ++ " ".intercalate arguments

/-- Why reading a command line ends before a command is run. -/
inductive Stop where
  | help (grammar : Grammar)
  | version
  | misuse (grammar : Grammar) (error : UsageError)
  deriving DecidableEq, Repr

end Arguments
end Reindent
