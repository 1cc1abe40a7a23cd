import Reindent.Command.Run

/-!
# The program

The outer layer: it loads what a command may look at from the file system, runs the command, writes
back the files that it changed, and prints what it said.  Changes cannot be observed and tools
cannot be served from here, so these two commands end with a message.
-/

namespace Reindent
namespace Program

open Command (Session Workspace ProjectChoice)

abbrev Entries := List (Location × Node)

def nodeAt? (location : Location) : IO (Option Node) := do
  let place := (← IO.currentDir) / (Project.pathOf location).text
  if ← place.isDir then return some .directory
  else if ← place.pathExists then return some (.file (← IO.FS.readBinFile place))
  else return none

/-- A location and those above it. -/
def chain (location : Location) : IO Entries := do
  let above := (List.range location.length).map fun i => location.take (i + 1)
  above.filterMapM fun place => do
    return (← nodeAt? place).map fun node => (place, node)

/-- What stands below a location.  Of a file that is no document only the place matters. -/
partial def below (extensions : List String) (location : Location) : IO Entries := do
  let place := (← IO.currentDir) / (Project.pathOf location).text
  if !(← place.isDir) then return []
  let found ← (← place.readDir).toList.mapM fun entry => do
    let inside := location ++ [entry.fileName]
    if ← entry.path.isDir then return (inside, .directory) :: (← below extensions inside)
    else if Selection.hasSuffix extensions (Project.pathOf inside) then
      return (← nodeAt? inside).toList.map fun node => (inside, node)
    else return [(inside, .file ByteArray.empty)]
  return found.flatten

def locationOf (cwd : Location) (path : Path) : Location :=
  (path.resolve (Project.pathOf cwd)).names

/-- The settings files that a choice of project may lead to. -/
def settingsFiles (cwd : Location) (choice : ProjectChoice) : List Location :=
  let directories := (List.range (cwd.length + 1)).map cwd.take
    ++ choice.root.toList.map fun root => locationOf cwd (Path.ofString root)
  directories.map (· ++ [Settings.fileName])
    ++ choice.config.toList.map fun config => locationOf cwd (Path.ofString config)

/-- The entries that a project and some paths lead to. -/
def projectEntries (cwd : Location) (choice : ProjectChoice) (paths : List String) :
    IO Entries := do
  let opening := (← (cwd :: settingsFiles cwd choice).mapM chain).flatten
  match (Command.openProject { tree := { entries := opening }, cwd } choice).2 with
  | .error _ => return opening
  | .ok project =>
    let targets := (Command.targets project paths).map (locationOf cwd)
    -- A file that is asked for by its name comes first, with its bytes.
    let named ← targets.mapM chain
    let searched ← targets.mapM (below project.settings.extensions)
    return opening ++ named.flatten ++ searched.flatten

/-- The entries that an invocation may look at. -/
def entriesFor (cwd : Location) : Command.Line.Invocation → IO Entries
  | .format request => projectEntries cwd request.project request.paths
  | .openTags request => do
    return (← chain cwd) ++ (← chain (locationOf cwd (Path.ofString request.file)))
  | .watch request => projectEntries cwd request.project request.paths
  | .serve project => projectEntries cwd project []

partial def readAll (stream : IO.FS.Stream) (sofar : ByteArray) : IO ByteArray := do
  let more ← stream.read 65536
  if more.isEmpty then return sofar else readAll stream (sofar ++ more)

/-- Write back the files that differ between two trees. -/
def writeBack (before after : FileTree) : IO Unit :=
  (before.difference after).forM fun (location, bytes) =>
    bytes.forM fun later => IO.FS.writeBinFile (Project.pathOf location).text later

/-- The session of a command line: nothing is loaded for one that names no command. -/
def sessionFor (arguments : List String) : IO Session := do
  let cwd := (Path.ofString (← IO.currentDir).toString).names
  match Command.Line.read arguments with
  | .error _ => return { tree := {}, cwd }
  | .ok instruction =>
    let input ← if instruction.invocation.readsInput then readAll (← IO.getStdin) ByteArray.empty
      else pure ByteArray.empty
    return { tree := { entries := ← entriesFor cwd instruction.invocation }, cwd, input }

end Program
end Reindent

open Reindent in
def main (arguments : List String) : IO UInt32 := do
  let session ← Program.sessionFor arguments
  let report := Command.run session { canWatch := false, canServe := false } arguments
  Program.writeBack session.tree report.outcome.tree
  (← IO.getStdout).putStr report.output
  (← IO.getStderr).putStr report.errors
  match report.outcome.exit with
  | .ok code => return code.toUInt32
  | .error crash =>
    (← IO.getStderr).putStr (Fault.crash crash).report
    return 1
