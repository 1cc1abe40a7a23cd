import Reindent.Command.OpenTags
import Reindent.Proofs.Command.FormatEffect
import Reindent.Proofs.Command.WatchRun
import Reindent.Proofs.Json.RoundTrip

/-!
# The output mode

A command can show its result to a user or, as JSON, to a program.  The mode changes what is written
and nothing else: the command ends in the same way, with the same tree, and has taken the same part
of the standard input.

A program that runs the format or the open-tags command reads all of the standard output as one
object.  Its verdict is that of the exit code, however the command came to its end.
-/

namespace Reindent
namespace Command

/-- Two outcomes that differ at most in what was written. -/
structure Outcome.SameEffect (a b : Outcome) : Prop where
  exit_eq : a.exit = b.exit
  tree_eq : a.tree = b.tree
  input_eq : a.input = b.input

theorem Outcome.SameEffect.refl (a : Outcome) : a.SameEffect a :=
  ⟨rfl, rfl, rfl⟩

/-- The value is an object without repeated names whose verdict is that of an exit code. -/
def IsReport (code : ℕ) (v : Json) : Prop :=
  ∃ fields, v = .obj fields ∧ (fields.map Prod.fst).Nodup ∧
    ("ok", .bool (decide (code = success))) ∈ fields

/-- A command that came to its end wrote one report of its exit code and nothing else. -/
def Outcome.Reports (a : Outcome) : Prop :=
  ∀ code, a.exit = .ok code →
    ∃ report, Json.read? (renderOutput a.output) = some report ∧ IsReport code report

theorem Outcome.Reports.of_value
    {a : Outcome} {v : Json} (houtput : a.output = [.value v]) (hplain : v.Plain)
    (h : ∀ code, a.exit = .ok code → IsReport code v) :
    a.Reports := by
  intro code hcode
  refine ⟨v, ?_, h code hcode⟩
  rw [houtput, renderOutput, List.map_cons, List.map_nil, String.join_cons, String.join_nil,
    String.append_empty]
  exact hplain.read?_pretty

/-! ## Failures -/

theorem sameEffect_failed
    (session : Session) (json other : Bool) (command : String) (notes : List Note)
    (fault : Fault) :
    (failed session json command notes fault).SameEffect
      (failed session other command notes fault) := by
  unfold failed
  split
  · exact .refl _
  · cases json <;> cases other <;> exact ⟨rfl, rfl, rfl⟩

theorem reports_failed
    (session : Session) (command : String) (notes : List Note) (fault : Fault) :
    (failed session true command notes fault).Reports := by
  unfold failed
  split
  · exact nofun
  · refine .of_value rfl (.obj ?_) ?_
    · simp only [List.forall_mem_cons]
      exact ⟨.str _, .bool _, .str _, nofun⟩
    · intro code hcode
      have hbad : code ≠ success := by
        rw [← Except.ok.inj hcode]
        split <;> decide
      refine ⟨_, rfl, by simp, ?_⟩
      rw [decide_eq_false hbad]
      exact List.mem_cons_of_mem _ List.mem_cons_self

/-! ## The format command -/

namespace Format

variable (session : Session) (request : Request)

theorem perform_json (json : Bool) :
    perform session { request with json } = perform session request :=
  rfl

theorem sameEffect_run (json : Bool) :
    (run session { request with json }).SameEffect (run session request) := by
  unfold run
  rw [perform_json]
  dsimp only
  split
  · exact sameEffect_failed _ _ _ _ _ _
  · exact ⟨rfl, rfl, rfl⟩

theorem plain_json (result : Result) : (result.json request).Plain := by
  cases result with
  | text before formatted =>
      refine .obj ?_
      simp only [List.forall_mem_cons]
      exact ⟨.str _, .bool _, .bool _, .str _, nofun⟩
  | files count tally =>
      refine .obj ?_
      simp only [List.forall_mem_cons]
      refine ⟨.str _, .bool _, .bool _, .strings _, .strings _, .obj ?_, nofun⟩
      intro field hfield
      obtain ⟨failure, -, rfl⟩ := List.mem_map.mp hfield
      exact .str _

/-- The verdict of the report and the exit code are computed apart from each other, and agree. -/
theorem isReport_json (result : Result) : IsReport (result.exit request) (result.json request) := by
  cases result with
  | text before formatted =>
      refine ⟨_, rfl, by simp, ?_⟩
      have hverdict : decide ((Result.text before formatted).exit request = success) =
          !(Result.text before formatted).checkFails request := by
        unfold Result.exit
        cases (Result.text before formatted).checkFails request <;> rfl
      rw [hverdict]
      exact List.mem_cons_of_mem _ List.mem_cons_self
  | files count tally =>
      refine ⟨_, rfl, by simp, ?_⟩
      have hverdict : decide ((Result.files count tally).exit request = success) =
          (tally.failed.isEmpty && !(Result.files count tally).checkFails request) := by
        by_cases hfailed : tally.failed = []
        · cases hcheck : (Result.files count tally).checkFails request <;>
            simp [Result.exit, hfailed, hcheck, checkFailed, success]
        · simp [Result.exit, hfailed, badDocument, success]
      rw [hverdict]
      exact List.mem_cons_of_mem _ List.mem_cons_self

theorem reports_run (hjson : request.json = true) : (run session request).Reports := by
  unfold run
  dsimp only
  split
  · rw [hjson]
    exact reports_failed _ _ _ _
  · next result _ =>
    refine .of_value (if_pos hjson) (plain_json request result) ?_
    intro code hcode
    rw [← Except.ok.inj hcode]
    exact isReport_json request result

end Format

/-! ## The open-tags command -/

namespace OpenTags

variable (session : Session) (request : Request)

theorem sameEffect_run (json : Bool) :
    (run session { request with json }).SameEffect (run session request) := by
  have hlooked : looked session { request with json } = looked session request := rfl
  unfold run
  rw [hlooked]
  split
  · exact sameEffect_failed _ _ _ _ _ _
  · exact ⟨rfl, rfl, rfl⟩

theorem reports_run (hjson : request.json = true) : (run session request).Reports := by
  unfold run
  split
  · rw [hjson]
    exact reports_failed _ _ _ _
  · refine .of_value (if_pos hjson) (.obj ?_) ?_
    · simp only [List.forall_mem_cons]
      exact ⟨.str _, .bool _, .int _, .strings _, nofun⟩
    · intro code hcode
      rw [← Except.ok.inj hcode]
      exact ⟨_, rfl, by simp, List.mem_cons_of_mem _ List.mem_cons_self⟩

end OpenTags

/-! ## The watch command -/

namespace Watch

/-- The tree that a batch leaves depends neither on the mode nor on what was shown before. -/
theorem tree_batch_json
    (scope : Scope) (json : Bool) {p q : Progress} (h : p.tree = q.tree) (changes : List Change)
    (paths : List Path) :
    (batch { scope with json } { p with tree := changes.foldl Change.apply p.tree } paths).tree =
      (batch scope { q with tree := changes.foldl Change.apply q.tree } paths).tree := by
  have hp := batch_eq { scope with json } p ⟨changes, paths⟩
  have hq := batch_eq scope q ⟨changes, paths⟩
  calc
    _ = Batch.after { scope with json } p.tree ⟨changes, paths⟩ := congrArg Progress.tree hp
    _ = Batch.after scope q.tree ⟨changes, paths⟩ := by rw [h]; rfl
    _ = _ := (congrArg Progress.tree hq).symm

theorem tree_events_json
    (scope : Scope) (json : Bool) {p q : Progress} (h : p.tree = q.tree) (told : List Event) :
    (events { scope with json } p told).tree = (events scope q told).tree := by
  induction told generalizing p q with
  | nil => exact h
  | cons event told ih =>
      cases event with
      | interrupt => exact h
      | batch changes paths =>
          exact ih (tree_batch_json scope json h changes paths)

theorem sameEffect_run
    (session : Session) (available : Bool) (elapsed : Reindent.Watch.Elapsed) (request : Request)
    (json : Bool) (told : List Event) :
    (run session available elapsed { request with json } told).1.SameEffect
      (run session available elapsed request told).1 := by
  unfold run
  dsimp only
  split
  · dsimp only
    exact sameEffect_failed session json request.json _ _ _
  · split
    · exact sameEffect_failed session json request.json _ _ _
    · split
      · dsimp only
        exact sameEffect_failed session json request.json _ _ _
      · next project roots _ _ unit _ =>
        let scope : Scope :=
          { cwd := session.cwd, roots, settings := project.settings, unit, json := request.json
            elapsed }
        exact ⟨rfl, tree_events_json scope json rfl told, rfl⟩

end Watch

/-- The output mode changes what is written and nothing else, in all three commands and however they
end; and a program that reads the output of a format or open-tags command that came to its end gets
one object, whose verdict is that of the exit code. -/
theorem output_mode_only_shows
    (session : Session) (format : Format.Request) (openTags : OpenTags.Request)
    (watch : Watch.Request) (json available : Bool) (elapsed : Reindent.Watch.Elapsed)
    (told : List Watch.Event) :
    (Format.run session { format with json }).SameEffect (Format.run session format) ∧
    (OpenTags.run session { openTags with json }).SameEffect (OpenTags.run session openTags) ∧
    (Watch.run session available elapsed { watch with json } told).1.SameEffect
      (Watch.run session available elapsed watch told).1 ∧
    (Format.run session { format with json := true }).Reports ∧
    (OpenTags.run session { openTags with json := true }).Reports :=
  ⟨Format.sameEffect_run session format json, OpenTags.sameEffect_run session openTags json,
    Watch.sameEffect_run session available elapsed watch json told,
    Format.reports_run session _ rfl, OpenTags.reports_run session _ rfl⟩

/-- A list with an item out of place, on the standard input. -/
def pipedList : Session where
  tree := {}
  cwd := []
  input := Text.toUtf8 "<ul>\n<li>x</li>\n</ul>\n".toList

theorem output_mode_pipedList :
    (Format.run pipedList { check := true, stdin := true }).exit = .ok checkFailed ∧
    (Format.run pipedList { check := true, stdin := true, json := true }).exit =
      .ok checkFailed ∧
    ∃ report, Json.read? (renderOutput
        (Format.run pipedList { check := true, stdin := true, json := true }).output) =
      some report ∧ IsReport checkFailed report := by
  have hexit : (Format.run pipedList { check := true, stdin := true }).exit =
      .ok checkFailed := by
    decide +kernel
  obtain ⟨hsame, -, -, hreports, -⟩ := output_mode_only_shows pipedList
    { check := true, stdin := true } { file := "" } {} true true (.whole 0) []
  have hjson := hsame.exit_eq.trans hexit
  exact ⟨hexit, hjson, hreports checkFailed hjson⟩

end Command
end Reindent
