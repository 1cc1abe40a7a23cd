import Reindent.Tool.Call

/-!
# The serve command

Serving the tools to a client, in the root directory of the project.
-/

namespace Reindent
namespace Command
namespace Serve

def serverName : String := "fubelt"

/-- What a client is told about the server. -/
def instructions : String := "Fubelt document formatter"

/-- What a server did: where it worked and what it answered. -/
structure Served where
  cwd : Location
  answers : List String
  deriving DecidableEq, Repr

/-- The location of a directory to work in. -/
def workplace (session : Session) (root : Path) : Except Crash Location :=
  match session.tree.locate session.cwd root with
  | .error cause => .error (.lookup cause root)
  | .ok location =>
    if session.tree.hasDirectory location then .ok location
    else .error (.lookup .notDirectory root)

structure Progress where
  session : Session
  notes : List Note
  answers : List String := []

/-- Calls, one after the other.  A crash ends the server. -/
def calls : Progress → List Tool.Call → Progress × Except Crash Unit
  | p, [] => (p, .ok ())
  | p, call :: rest =>
    let reply := call.run p.session
    let next : Progress := { p with session := reply.session, notes := p.notes ++ reply.notes }
    match reply.answer with
    | .error cause => (next, .error cause)
    | .ok answer => calls { next with answers := p.answers ++ [answer] } rest

/-- What is said when there is nothing to serve tools with. -/
def notInstalled : String := "No module named 'fastmcp'"

/-- The location to work in, once the tools may be served. -/
def opened (session : Session) (project : Except Fault Workspace) : Except Fault Location := do
  let project ← project
  if !project.settings.toolsEnabled then throw (.settings .toolsDisabled)
  orCrash (workplace session project.root)

/-- The serve command: its outcome, and what was served if the server began.  `available` says
whether there is something to serve tools with. -/
def run (session : Session) (available : Bool) (choice : ProjectChoice)
    (asked : List Tool.Call) : Outcome × Option Served :=
  let (opening, project) := openProject session choice
  match opened session project with
  | .error fault => (failed session false "mcp" opening fault, none)
  | .ok cwd =>
    let notes := opening ++ [.log .debug "fubelt.mcp"
      ("starting MCP server in " ++ (Project.pathOf cwd).text)]
    if !available then
      (failed session false "mcp" notes (.missingPackage notInstalled), none)
    else
      let (done, ended) := calls { session := { session with cwd }, notes } asked
      ({ exit := ended.map fun _ => success
         notes := done.notes
         tree := done.session.tree
         input := done.session.input }, some { cwd, answers := done.answers })

end Serve
end Command
end Reindent
