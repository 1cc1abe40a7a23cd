import Reindent.Advice.Hint
import Reindent.FileTree.Probe
import Reindent.Project.LineRange
import Reindent.Project.Settings
import Reindent.Toml.Value

/-!
# Errors of a project

What can go wrong between a command and its documents: the settings, the selection of documents,
and the documents themselves.  Any other error stops the command where it arises.
-/

namespace Reindent

/-- Why there are no settings to work with. -/
inductive SettingsError where
  | noProject
  | missingFile (path : Path)
  | unreadable (path : Path)
  | notText (path : Path)
  | malformed (path : Path) (conflict : Option Toml.Conflict)
  | missingVersion
  | unsupportedVersion (version : Int)
  | notTable (name : String)
  | notStrings (name : String)
  | notBoolean (name : String)
  | notInteger (name : String)
  | notString (name : String)
  | unknownStyle
  | sizeTooSmall
  | nothingIncluded
  | extensionWithoutDot
  | rootNotDirectory (path : Path)
  | lineRange (cause : Project.LineRangeError)
  | linesNeedOneDocument
  | toolsDisabled
  deriving DecidableEq, Repr

def SettingsError.message : SettingsError → String
  | .noProject => "Could not find fubelt.toml by walking upward from start path."
  | .missingFile path => "Missing fubelt.toml at: " ++ path.text
  | .unreadable path => "Failed reading config file: " ++ path.text
  | .notText path => "Config is not valid UTF-8: " ++ path.text
  | .malformed path _ => "Invalid TOML in " ++ path.text ++ ": <detail>"
  | .missingVersion => "Missing required \x60version = 1\x60 in fubelt.toml."
  | .unsupportedVersion version =>
    "Unsupported config version: " ++ toString version ++ " (expected 1)."
  | .notTable name => "Expected [" ++ name ++ "] to be a table."
  | .notStrings name => "Expected " ++ name ++ " to be a list of strings."
  | .notBoolean name => "Expected " ++ name ++ " to be a boolean."
  | .notInteger name => "Expected " ++ name ++ " to be an integer."
  | .notString name => "Expected " ++ name ++ " to be a string."
  | .unknownStyle =>
    "Invalid config: format.indent_style must be one of "
      ++ ", ".intercalate (IndentStyle.all.map IndentStyle.name) ++ "."
  | .sizeTooSmall => "Invalid config: format.indent_size must be >= 1."
  | .nothingIncluded => "Invalid config: paths.include must not be empty."
  | .extensionWithoutDot => "Invalid config: paths.extensions entries must start with '.'."
  | .rootNotDirectory path => "Project root is not a directory: " ++ path.text
  | .lineRange cause => cause.message
  | .linesNeedOneDocument => "--lines requires exactly one document."
  | .toolsDisabled => "The MCP server is disabled by mcp.enabled in fubelt.toml."

/-- What the hint for settings that cannot be used goes by: the message, and the keys in conflict,
which the message does not show. -/
def SettingsError.clues (error : SettingsError) : String :=
  match error with
  | .malformed _ (some conflict) => error.message ++ " " ++ conflict.message
  | _ => error.message

/-- Why a document cannot be read or written. -/
inductive DocumentError where
  | notText (path : Path)
  | notRead (path : Path) (cause : FileError)
  | notWritten (path : Path) (cause : FileError)
  deriving DecidableEq, Repr

def DocumentError.message : DocumentError → String
  | .notText path => path.text ++ " is not valid UTF-8"
  | .notRead path cause => "Failed reading " ++ path.text ++ ": " ++ cause.text
  | .notWritten path cause => "Failed writing " ++ path.text ++ ": " ++ cause.text

/-- Why an operation on a project failed. -/
inductive Fault where
  | settings (cause : SettingsError)
  | noSuchPath (path : Path)
  | document (cause : DocumentError)
  | missingPackage (message : String)
  | crash (cause : Crash)
  deriving DecidableEq, Repr

def Fault.message : Fault → String
  | .settings cause => cause.message
  | .noSuchPath path => "No such file or directory: " ++ path.text
  | .document cause => cause.message
  | .missingPackage message => message
  | .crash cause => cause.message

def Fault.subject : Fault → Advice.Subject
  | .settings _ => .settings
  | .noSuchPath _ => .selection
  | .document _ => .document
  | .missingPackage _ => .other
  | .crash _ => .other

/-- What the hint for a failure goes by. -/
def Fault.clues : Fault → String
  | .settings cause => cause.clues
  | fault => fault.message

/-- A failure as a user sees it. -/
def Fault.report (fault : Fault) : String :=
  Advice.withHint fault.message (Advice.hint? fault.subject fault.clues)

/-- A computation that may crash, as one that may fail. -/
def orCrash {α : Type} (result : Except Crash α) : Except Fault α :=
  result.mapError .crash

end Reindent
