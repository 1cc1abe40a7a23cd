import Reindent.Project.Error
import Reindent.Text.Encoding
import Reindent.Toml.Document

/-!
# Loading settings

Settings come from a file at the root of the project.  They are checked one by one, in a fixed
order, so that the first fault is the one reported; what the file does not give has its default.
-/

namespace Reindent
namespace Settings

def fileName : String := "fubelt.toml"

/-- A table of the file, empty if the file does not have it. -/
def tableAt (document : Toml.Table) (name : String) : Except SettingsError Toml.Table :=
  match document.lookup name with
  | none => .ok []
  | some (.table fields) => .ok fields
  | some _ => .error (.notTable name)

/-- A field of a table, read if it is there. -/
def fieldOr {α : Type} (fields : Toml.Table) (name : String) (default : α)
    (read : Toml.Value → Except SettingsError α) : Except SettingsError α :=
  match fields.lookup name with
  | none => .ok default
  | some v => read v

def asInteger (name : String) : Toml.Value → Except SettingsError Int
  | .integer n => .ok n
  | _ => .error (.notInteger name)

def asString (name : String) : Toml.Value → Except SettingsError String
  | .string s => .ok s
  | _ => .error (.notString name)

def asBoolean (name : String) : Toml.Value → Except SettingsError Bool
  | .boolean b => .ok b
  | _ => .error (.notBoolean name)

/-- The strings of a list that has nothing else in it. -/
def strings? : List Toml.Value → Option (List String)
  | [] => some []
  | .string s :: rest => (strings? rest).map (s :: ·)
  | _ :: _ => none

def asStrings (name : String) (v : Toml.Value) : Except SettingsError (List String) :=
  match v with
  | .array items =>
    match strings? items with
    | some ss => .ok ss
    | none => .error (.notStrings name)
  | _ => .error (.notStrings name)

def styleNamed? (name : String) : Option IndentStyle :=
  IndentStyle.all.find? fun style => style.name = name

/-- The version of the file, which has to be one. -/
def versionOf (document : Toml.Table) : Except SettingsError Int :=
  match document.lookup "version" with
  | none => .error .missingVersion
  | some v => do
    let version ← asInteger "version" v
    if version ≠ 1 then throw (.unsupportedVersion version)
    return version

def ofToml (document : Toml.Table) : Except SettingsError Settings := do
  let version ← versionOf document
  let defaults : Settings := {}
  let format ← tableAt document "format"
  let paths ← tableAt document "paths"
  let tools ← tableAt document "mcp"
  let styleName ← fieldOr format "indent_style" defaults.indentStyle.name
    (asString "format.indent_style")
  let indentSize ← fieldOr format "indent_size" defaults.indentSize
    (asInteger "format.indent_size")
  let included ← fieldOr paths "include" defaults.included (asStrings "paths.include")
  let excluded ← fieldOr paths "exclude" defaults.excluded (asStrings "paths.exclude")
  let extensions ← fieldOr paths "extensions" defaults.extensions (asStrings "paths.extensions")
  let toolsEnabled ← fieldOr tools "enabled" defaults.toolsEnabled (asBoolean "mcp.enabled")
  match styleNamed? styleName with
  | none => throw .unknownStyle
  | some indentStyle =>
    if indentSize < 1 then throw .sizeTooSmall
    if included = [] then throw .nothingIncluded
    if extensions.any fun e => e.toList.head? ≠ some '.' then throw .extensionWithoutDot
    return { version, indentStyle, indentSize, included, excluded, extensions, toolsEnabled }

/-- The failure that settings which cannot be used lead to.  A version with too many digits cannot
even be named in a message. -/
def faultOf (cause : SettingsError) : Fault :=
  match cause with
  | .unsupportedVersion version =>
    if Text.tooLongToShow version then .crash .numberNotShown else .settings cause
  | _ => .settings cause

def ofBytes (path : Path) (bytes : ByteArray) : Except Fault Settings :=
  match Text.ofUtf8? bytes with
  | none => .error (.settings (.notText path))
  | some t =>
    match Toml.parse t with
    | .error .malformed => .error (.settings (.malformed path none))
    | .error (.conflict cause) => .error (.settings (.malformed path (some cause)))
    | .error .tooDeep => .error (.crash .nestedTooDeep)
    | .error (.numberTooLong digits) => .error (.crash (.numberTooLong digits))
    | .ok document => (ofToml document).mapError faultOf

/-- The settings in the file at a path. -/
def load (tree : FileTree) (cwd : Location) (path : Path) : Except Fault Settings :=
  if path.hasNull then .error (.crash .nullInPath)
  else
    match tree.read cwd path with
    | .error .notFound => .error (.settings (.missingFile path))
    | .error _ => .error (.settings (.unreadable path))
    | .ok bytes => ofBytes path bytes

end Settings

namespace Project

def pathOf (location : Location) : Path :=
  { root := .slash, names := location }

/-- The nearest directory with a settings file, from a directory upward.  The directory is given by
its names, the last one first. -/
def searchUp (tree : FileTree) : List String → Except Fault Path
  | [] => do
    if ← orCrash (tree.isFile [] (pathOf [Settings.fileName])) then return pathOf []
    else throw (.settings .noProject)
  | name :: above => do
    let directory := pathOf (name :: above).reverse
    if ← orCrash (tree.isFile [] (directory.child Settings.fileName)) then return directory
    else searchUp tree above

/-- The directory where the search for a project starts: a file's own directory, any other path
itself. -/
def searchStart (tree : FileTree) (cwd : Location) (start : Path) : Path :=
  match tree.isFile cwd start with
  | .ok false => start
  | _ => start.parent

/-- The root of the project that a path belongs to. -/
def rootOf (tree : FileTree) (cwd : Location) (start : Path) : Except Fault Path := do
  let directory ← orCrash ((searchStart tree cwd start).resolved cwd)
  searchUp tree directory.names.reverse

/-- The settings of the project with a root, of the file at a path, or of the project around the
working directory, whichever is given. -/
def settingsOf (tree : FileTree) (cwd : Location) (root file : Option Path) :
    Except Fault Settings :=
  match file, root with
  | some path, _ => Settings.load tree cwd path
  | none, some directory => Settings.load tree cwd (directory.child Settings.fileName)
  | none, none => do
    let directory ← rootOf tree cwd (pathOf cwd)
    Settings.load tree cwd (directory.child Settings.fileName)

end Project
end Reindent
