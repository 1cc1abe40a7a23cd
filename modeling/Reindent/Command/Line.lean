import Reindent.Arguments.Parse
import Reindent.Command.Format
import Reindent.Command.OpenTags
import Reindent.Command.Watch

/-!
# The command line

The grammars of all commands, and what a command line asks for.  Arguments that no grammar explains
are refused at the end, those of the outer grammar first.
-/

namespace Reindent
namespace Command
namespace Line

open Arguments

/-- What a command line asks for. -/
inductive Invocation where
  | format (request : Format.Request)
  | openTags (request : OpenTags.Request)
  | watch (request : Watch.Request)
  | serve (project : ProjectChoice)
  deriving DecidableEq, Repr

def Invocation.readsInput : Invocation → Bool
  | .format request => request.stdin
  | _ => false

/-- An invocation, and whether log entries for debugging are shown. -/
structure Instruction where
  verbose : Bool
  invocation : Invocation
  deriving DecidableEq, Repr

/-- What a grammar gives, and the arguments that it does not explain. -/
abbrev Explained := Invocation × List String

/-! ## Options -/

/-- An option with a long name alone. -/
def longOption (name : String) (kind : OptionKind) : OptionSpec :=
  { names := [name], kind }

def helpOption : OptionSpec := { names := ["-h", "--help"], kind := .help }

def verboseOption : OptionSpec := { names := ["-v", "--verbose"], kind := .switch }

def projectOptions : List OptionSpec :=
  [longOption "--root" .text, longOption "--config" .text]

def projectChoice (p : Parsed) : ProjectChoice :=
  { root := (p.text "--root").value?, config := (p.text "--config").value? }

def page (lines : List String) : String :=
  "\n".intercalate lines

/-! ## The format command -/

def formatGrammar : Grammar where
  program := "fubelt format"
  usage := page
    ["usage: fubelt format [-h] [--root ROOT] [--config CONFIG] [--json] [--check]",
      "                     [--diff] [--stdin] [--lines START:END]",
      "                     [paths ...]"]
  details := page
    ["positional arguments:",
      "  paths              Files or directories (defaults to paths.include from",
      "                     fubelt.toml).",
      "",
      "options:",
      "  -h, --help         show this help message and exit",
      "  --root ROOT        Project root (defaults to searching upward from cwd for",
      "                     fubelt.toml).",
      "  --config CONFIG    Path to fubelt.toml (defaults to <root>/fubelt.toml).",
      "  --json             Emit a machine-readable JSON result on stdout.",
      "  --check            Do not write; exit 1 if any document would change.",
      "  --diff             Do not write; print a unified diff instead.",
      "  --stdin            Format stdin and write the result to stdout.",
      "  --lines START:END  Only format this 1-based inclusive line span (single",
      "                     document only)."]
  options := helpOption :: projectOptions ++
    [longOption "--json" .switch, longOption "--check" .switch, longOption "--diff" .switch,
      longOption "--stdin" .switch, longOption "--lines" .text]
  operands := .many

def readFormat (arguments : List String) : Except Stop Explained := do
  let p ← parse formatGrammar arguments
  return (.format
    { project := projectChoice p
      json := p.isOn "--json"
      check := p.isOn "--check"
      diff := p.isOn "--diff"
      stdin := p.isOn "--stdin"
      lines := p.text "--lines"
      paths := p.operands.getD [] }, p.leftover)

/-! ## The open-tags command -/

def openTagsGrammar : Grammar where
  program := "fubelt open-tags"
  usage := page
    ["usage: fubelt open-tags [-h] [--json] [--offset OFFSET] [--line LINE]",
      "                        [--column COLUMN]",
      "                        file"]
  details := page
    ["positional arguments:",
      "  file             Document to scan.",
      "",
      "options:",
      "  -h, --help       show this help message and exit",
      "  --json           Emit a machine-readable JSON result on stdout.",
      "  --offset OFFSET  Character offset.",
      "  --line LINE      1-based line.",
      "  --column COLUMN  1-based column (with --line)."]
  options :=
    [helpOption, longOption "--json" .switch, longOption "--offset" .integer,
      longOption "--line" .integer, longOption "--column" .integer]
  operands := .one "file"

def readOpenTags (arguments : List String) : Except Stop Explained := do
  let p ← parse openTagsGrammar arguments
  return (.openTags
    { file := (p.operands.bind List.head?).getD ""
      json := p.isOn "--json"
      offset := p.integer "--offset"
      line := p.integer "--line"
      column := p.integer "--column" }, p.leftover)

/-! ## The watch command -/

def watchGrammar : Grammar where
  program := "fubelt watch"
  usage := "usage: fubelt watch [-h] [--root ROOT] [--config CONFIG] [--json] [paths ...]"
  details := page
    ["positional arguments:",
      "  paths            Directories to watch (defaults to paths.include from",
      "                   fubelt.toml).",
      "",
      "options:",
      "  -h, --help       show this help message and exit",
      "  --root ROOT      Project root (defaults to searching upward from cwd for",
      "                   fubelt.toml).",
      "  --config CONFIG  Path to fubelt.toml (defaults to <root>/fubelt.toml).",
      "  --json           Emit a machine-readable JSON result on stdout."]
  options := helpOption :: projectOptions ++ [longOption "--json" .switch]
  operands := .many

def readWatch (arguments : List String) : Except Stop Explained := do
  let p ← parse watchGrammar arguments
  return (.watch
    { project := projectChoice p
      json := p.isOn "--json"
      paths := p.operands.getD [] }, p.leftover)

/-! ## The tool server -/

def serveGrammar : Grammar where
  program := "fubelt mcp serve"
  usage := "usage: fubelt mcp serve [-h] [--root ROOT] [--config CONFIG]"
  details := page
    ["options:",
      "  -h, --help       show this help message and exit",
      "  --root ROOT      Project root.",
      "  --config CONFIG  Path to fubelt.toml."]
  options := helpOption :: projectOptions
  operands := .none

def readServe (arguments : List String) : Except Stop Explained := do
  let p ← parse serveGrammar arguments
  return (.serve (projectChoice p), p.leftover)

/-- The commands of a grammar, each with how the arguments after it are read. -/
abbrev Commands := List (String × (List String → Except Stop Explained))

/-- What a command line asks for whose grammar ends in a command. -/
def readCommand (g : Grammar) (title : String) (commands : Commands) (p : Parsed) :
    Except Stop Explained :=
  match p.operands with
  | some (name :: rest) =>
    match commands.lookup name with
    | some read => do
      let (invocation, leftover) ← read rest
      return (invocation, p.leftover ++ leftover)
    | none => .error (.misuse g (.unknownChoice title name (commands.map Prod.fst)))
  | _ => .error (.misuse g (.operandMissing title))

def toolCommands : Commands := [("serve", readServe)]

def toolsGrammar : Grammar where
  program := "fubelt mcp"
  usage := "usage: fubelt mcp [-h] \x7bserve\x7d ..."
  details := page
    ["positional arguments:",
      "  \x7bserve\x7d",
      "    serve     Serve formatter tools over stdio.",
      "",
      "options:",
      "  -h, --help  show this help message and exit"]
  options := [helpOption]
  operands := .command "mcp_command" (toolCommands.map Prod.fst)

def readTools (arguments : List String) : Except Stop Explained := do
  readCommand toolsGrammar "mcp_command" toolCommands (← parse toolsGrammar arguments)

/-! ## The program -/

def programCommands : Commands :=
  [("format", readFormat), ("open-tags", readOpenTags), ("watch", readWatch), ("mcp", readTools)]

def programGrammar : Grammar where
  program := "fubelt"
  usage := "usage: fubelt [-h] [--version] [-v] \x7bformat,open-tags,watch,mcp\x7d ..."
  details := page
    ["positional arguments:",
      "  \x7bformat,open-tags,watch,mcp\x7d",
      "    format              Re-indent Fubelt documents.",
      "    open-tags           List tags still open at a position.",
      "    watch               Reformat documents whenever they change.",
      "    mcp                 Model Context Protocol server.",
      "",
      "options:",
      "  -h, --help            show this help message and exit",
      "  --version             show program's version number and exit",
      "  -v, --verbose         Log debug output to stderr."]
  options := [helpOption, longOption "--version" .version, verboseOption]
  operands := .command "command" (programCommands.map Prod.fst)

/-- What a command line asks for. -/
def read (arguments : List String) : Except Stop Instruction := do
  let p ← parse programGrammar arguments
  let (invocation, leftover) ← readCommand programGrammar "command" programCommands p
  if leftover ≠ [] then throw (.misuse programGrammar (.unrecognized leftover))
  return { verbose := p.isOn verboseOption.key, invocation }

/-- How a command line that stops before a command ends. -/
def stopped (session : Session) : Stop → Outcome
  | .help g => session.finish success [.text g.help] []
  | .version => session.finish success [.text ("fubelt " ++ programVersion true ++ "\n")] []
  | .misuse g error =>
    session.finish badProject []
      [.line g.usage, .line (g.program ++ ": error: " ++ error.message)]

end Line
end Command
end Reindent
