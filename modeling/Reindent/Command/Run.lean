import Reindent.Command.Serve

/-!
# Running a command line

From the arguments to everything that a command leaves behind.
-/

namespace Reindent
namespace Command

/-- What surrounds a command: whether changes can be observed and tools be served, and what happens
while a command waits. -/
structure Surroundings where
  canWatch : Bool := true
  canServe : Bool := true
  events : List Watch.Event := []
  calls : List Tool.Call := []
  elapsed : Reindent.Watch.Elapsed := .whole 0

/-- What a command line leads to. -/
structure Report where
  outcome : Outcome
  verbose : Bool := false
  /-- What was watched, if a watch began. -/
  watched : Option (List Path) := none
  /-- What was served, if a server began. -/
  served : Option Serve.Served := none

def Report.output (report : Report) : String :=
  renderOutput report.outcome.output

def Report.errors (report : Report) : String :=
  renderNotes report.verbose report.outcome.notes

def perform (session : Session) (around : Surroundings) (instruction : Line.Instruction) :
    Report :=
  let verbose := instruction.verbose
  match instruction.invocation with
  | .format request => { outcome := Format.run session request, verbose }
  | .openTags request => { outcome := OpenTags.run session request, verbose }
  | .watch request =>
    let (outcome, watched) :=
      Watch.run session around.canWatch around.elapsed request around.events
    { outcome, verbose, watched }
  | .serve project =>
    let (outcome, served) := Serve.run session around.canServe project around.calls
    { outcome, verbose, served }

/-- What a command line leads to. -/
def run (session : Session) (around : Surroundings) (arguments : List String) : Report :=
  match Line.read arguments with
  | .error stop => { outcome := Line.stopped session stop }
  | .ok instruction => perform session around instruction

end Command
end Reindent
