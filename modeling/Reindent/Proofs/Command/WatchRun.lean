import Reindent.Command.Watch
import Reindent.Proofs.Watch.Report

/-!
# The run of a watch

A watch is told batch after batch.  A batch with a watched document among its paths takes one turn:
a cycle over these documents, run in the tree that the batch finds.  Any other batch takes none.
What a watch shows is what its turns show, one after the other, whether or not their cycles come to
an end, and each turn starts with the tree that the one before it has left.  So a watch over more
batches is a watch over the first ones and, from the tree that it leaves, a watch over the others.
-/

namespace Reindent
namespace Command
namespace Watch

/-! ## Batches and turns -/

/-- Changes that someone else makes to the tree, and the paths that are reported for them. -/
structure Batch where
  changes : List Change
  paths : List Path

namespace Batch

/-- What the watch is told. -/
def told (b : Batch) : Event :=
  .batch b.changes b.paths

/-- The tree that the batch finds. -/
def found (b : Batch) (tree : FileTree) : FileTree :=
  b.changes.foldl Change.apply tree

/-- The watched documents among the paths of the batch. -/
def documents (scope : Scope) (b : Batch) : List Path :=
  Selection.ofChanges scope.roots scope.settings.extensions scope.settings.excluded b.paths

end Batch

/-- A cycle of a watch: the tree that it starts with and the documents that it is for. -/
structure Turn where
  tree : FileTree
  event : List Path

namespace Turn

/-- What the cycle has done at its end, and how it ended. -/
def outcome (scope : Scope) (turn : Turn) :
    Reindent.Watch.Progress × Except Crash Reindent.Watch.Cycle :=
  Reindent.Watch.runCycle turn.tree scope.cwd scope.unit turn.event

/-- The output of the cycle.  One that does not come to its end has none. -/
def output (scope : Scope) (turn : Turn) : List Output :=
  match (turn.outcome scope).2 with
  | .error _ => []
  | .ok cycle => (shown scope cycle).1

/-- What is said about the cycle. -/
def notes (scope : Scope) (turn : Turn) : List Note :=
  let heading := Note.line ("[watch] change detected: "
    ++ ", ".intercalate (turn.event.map Path.text))
  let closing := match (turn.outcome scope).2 with
    | .error cause => [.line (Fault.crash cause).report]
    | .ok cycle => .line ("[watch] reformatted " ++ toString cycle.reformatted.length
        ++ " document(s)") :: (shown scope cycle).2
  heading :: (turn.outcome scope).1.notes ++ closing

end Turn

/-- The turn that a batch takes, if any. -/
def Batch.turn? (scope : Scope) (tree : FileTree) (b : Batch) : Option Turn :=
  if b.documents scope = [] then none
  else some { tree := b.found tree, event := b.documents scope }

/-- The tree after a batch. -/
def Batch.after (scope : Scope) (tree : FileTree) (b : Batch) : FileTree :=
  match b.turn? scope tree with
  | none => b.found tree
  | some turn => (turn.outcome scope).1.tree

/-- The tree after all batches. -/
def treeAfter (scope : Scope) (tree : FileTree) (batches : List Batch) : FileTree :=
  batches.foldl (fun tree b => b.after scope tree) tree

/-- The turns of a watch, each from the tree that the batches before it have left. -/
def turns (scope : Scope) : FileTree → List Batch → List Turn
  | _, [] => []
  | tree, b :: rest => (b.turn? scope tree).toList ++ turns scope (b.after scope tree) rest

/-! ## One batch -/

/-- A batch adds what its turn shows and leaves the tree of its turn. -/
theorem batch_eq (scope : Scope) (p : Progress) (b : Batch) :
    batch scope { p with tree := b.found p.tree } b.paths =
      { tree := b.after scope p.tree
        output := p.output ++ (b.turn? scope p.tree).toList.flatMap (Turn.output scope)
        notes := p.notes ++ (b.turn? scope p.tree).toList.flatMap (Turn.notes scope) } := by
  by_cases hnone : b.documents scope = []
  · have hturn : b.turn? scope p.tree = none := if_pos hnone
    rw [batch, Batch.after, hturn]
    simp only [show Selection.ofChanges scope.roots scope.settings.extensions
      scope.settings.excluded b.paths = [] from hnone]
    simp
  · have hturn : b.turn? scope p.tree =
        some { tree := b.found p.tree, event := b.documents scope } := if_neg hnone
    have hselected : Selection.ofChanges scope.roots scope.settings.extensions
        scope.settings.excluded b.paths = b.documents scope := rfl
    rw [batch, Batch.after, hturn]
    simp only [hselected, if_neg hnone]
    rcases hcycle : Reindent.Watch.runCycle (b.found p.tree) scope.cwd scope.unit
      (b.documents scope) with ⟨done, cause | cycle⟩
    · simp [Turn.output, Turn.notes, Turn.outcome, hcycle]
    · simp [Turn.output, Turn.notes, Turn.outcome, hcycle]

/-! ## All batches -/

/-- A watch shows what its turns show, one after the other. -/
theorem events_eq (scope : Scope) (p : Progress) (batches : List Batch) :
    events scope p (batches.map Batch.told) =
      { tree := treeAfter scope p.tree batches
        output := p.output ++ (turns scope p.tree batches).flatMap (Turn.output scope)
        notes := p.notes ++ (turns scope p.tree batches).flatMap (Turn.notes scope) } := by
  induction batches generalizing p with
  | nil => simp [events, turns, treeAfter]
  | cons b rest ih =>
      rw [List.map_cons, Batch.told, events]
      change events scope (batch scope { p with tree := b.found p.tree } b.paths) _ = _
      rw [batch_eq, ih]
      simp [turns, treeAfter, List.append_assoc]

/-- Each batch with a watched document takes one turn, in order, and no other batch takes any. -/
theorem map_event_turns (scope : Scope) (tree : FileTree) (batches : List Batch) :
    (turns scope tree batches).map Turn.event =
      (batches.map (Batch.documents scope)).filter (· ≠ []) := by
  induction batches generalizing tree with
  | nil => rfl
  | cons b rest ih =>
      rw [turns, List.map_append, ih, List.map_cons]
      by_cases hnone : b.documents scope = []
      · rw [Batch.turn?, if_pos hnone, List.filter_cons_of_neg (by simp [hnone])]
        rfl
      · rw [Batch.turn?, if_neg hnone, List.filter_cons_of_pos (by simp [hnone])]
        rfl

theorem turns_append (scope : Scope) (tree : FileTree) (batches more : List Batch) :
    turns scope tree (batches ++ more) =
      turns scope tree batches ++ turns scope (treeAfter scope tree batches) more := by
  induction batches generalizing tree with
  | nil => rfl
  | cons b rest ih =>
      rw [List.cons_append, turns, ih, turns, List.append_assoc]
      rfl

theorem treeAfter_append (scope : Scope) (tree : FileTree) (batches more : List Batch) :
    treeAfter scope tree (batches ++ more) =
      treeAfter scope (treeAfter scope tree batches) more :=
  List.foldl_append

/-- A watch is its cycles, one after the other, and each cycle does what it reports.  The watch
shows what its turns show; the turns are for the documents of the batches that have any, in order;
and a watch over more batches goes on from the tree that the first ones have left, whether or not
their cycles came to an end.  A cycle over paths that can be looked up comes to its end; if its
paths are resolved, no two of them name one file. -/
theorem events_compose_cycles
    (scope : Scope) (tree : FileTree) (batches more : List Batch) :
    events scope { tree } (batches.map Batch.told) =
      { tree := treeAfter scope tree batches
        output := (turns scope tree batches).flatMap (Turn.output scope)
        notes := (turns scope tree batches).flatMap (Turn.notes scope) } ∧
    (turns scope tree batches).map Turn.event =
      (batches.map (Batch.documents scope)).filter (· ≠ []) ∧
    (let first := events scope { tree } (batches.map Batch.told)
     let second := events scope { tree := first.tree } (more.map Batch.told)
     events scope { tree } ((batches ++ more).map Batch.told) =
      { tree := second.tree
        output := first.output ++ second.output
        notes := first.notes ++ second.notes }) ∧
    ∀ (start : FileTree) (event : List Path),
      (∀ path ∈ event, ∃ found, start.isFile scope.cwd path = .ok found) →
      (∃ p cycle, Reindent.Watch.runCycle start scope.cwd scope.unit event = (p, .ok cycle) ∧
        Reindent.Watch.Settles start scope.cwd scope.unit event p.tree cycle) ∧
      ((∀ path ∈ event, path.IsResolved) →
        ∀ path ∈ event, Reindent.Watch.Alone start scope.cwd event path) := by
  refine ⟨?_, map_event_turns scope tree batches, ?_, ?_⟩
  · exact events_eq scope { tree } batches
  · simp only [events_eq, turns_append, treeAfter_append, List.flatMap_append, List.nil_append]
  · intro start event hfound
    refine ⟨Reindent.Watch.exists_settles_runCycle hfound scope.unit, ?_⟩
    intro hresolved path hpath
    exact Reindent.Watch.alone_of_isResolved hresolved hpath start scope.cwd

/-- A watch of a directory with a list that is not laid out and a file that is no text. -/
def deskScope : Scope where
  cwd := ["desk"]
  roots := [Project.pathOf ["desk"]]
  settings := {}
  unit := Layout.tab
  json := true
  elapsed := .whole 0

/-- The directory that is watched. -/
def desk : FileTree where
  entries := [
    (["desk"], .directory),
    (["desk", "a.fubelt"], .file (Text.toUtf8 "<ul>\n<li>x</li>\n</ul>\n".toList)),
    (["desk", "b.fubelt"], .file (ByteArray.mk #[0xff]))]

/-- The path of a document of the directory. -/
def deskPage (name : String) : Path :=
  Project.pathOf ["desk", name]

theorem events_compose_cycles_desk :
    ∃ p cycle, Reindent.Watch.runCycle desk ["desk"] Layout.tab
        (["a.fubelt", "b.fubelt", "gone.fubelt"].map deskPage) = (p, .ok cycle) ∧
      deskPage "a.fubelt" ∈ cycle.reformatted ∧
      p.tree.bytes? ["desk", "a.fubelt"] ≠ desk.bytes? ["desk", "a.fubelt"] ∧
      deskPage "b.fubelt" ∈ cycle.failed.map Prod.fst ∧
      deskPage "gone.fubelt" ∉ cycle.reformatted ∧
      deskPage "gone.fubelt" ∉ cycle.failed.map Prod.fst := by
  obtain ⟨-, -, -, hcycles⟩ := events_compose_cycles deskScope desk [] []
  have hfound : ∀ path ∈ ["a.fubelt", "b.fubelt", "gone.fubelt"].map deskPage,
      ∃ found, desk.isFile ["desk"] path = .ok found := by
    simp only [List.map_cons, List.map_nil, List.forall_mem_cons]
    exact ⟨⟨true, by decide +kernel⟩, ⟨true, by decide +kernel⟩, ⟨false, by decide +kernel⟩, nofun⟩
  obtain ⟨⟨p, cycle, hrun, hsettles⟩, halone⟩ := hcycles desk _ hfound
  have hpage := halone (by
    simp only [List.map_cons, List.map_nil, List.forall_mem_cons]
    exact ⟨⟨rfl, by decide⟩, ⟨rfl, by decide⟩, ⟨rfl, by decide⟩, nofun⟩)
  have hreformatted : deskPage "a.fubelt" ∈ cycle.reformatted := by
    rw [hsettles.reformatted_iff _ (by simp) (hpage _ (by simp))]
    exact ⟨"<ul>\n<li>x</li>\n</ul>\n".toList, by decide +kernel, by decide +kernel⟩
  refine ⟨p, cycle, hrun, hreformatted, ?_, ?_, ?_⟩
  · exact hsettles.bytes_ne (by decide) _ hreformatted (hpage _ (by simp)) _ (by decide +kernel)
  · rw [hsettles.failed_iff]
    exact ⟨by simp, by decide +kernel, .notText (deskPage "b.fubelt"), by decide +kernel⟩
  · exact hsettles.missing _ (by simp) (by decide +kernel)

/-- The directory with a script whose indented line starts with a carriage return. -/
def returnDesk : FileTree where
  entries := [
    (["desk"], .directory),
    (["desk", "a.fubelt"], .file (Text.toUtf8 "<script>\n\rf(\n</script>".toList))]

/-- Of two paths that name one file, only the first is reported, though formatting changes what
either reads as.  With a carriage return for a unit, a file can be reported and keep its bytes. -/
theorem runCycle_shared_desk :
    (∀ path ∈ [deskPage "a.fubelt", Path.ofString "a.fubelt"], ∃ text,
      Document.read desk ["desk"] path = .ok text ∧ Layout.format Layout.tab text ≠ text) ∧
    (Reindent.Watch.runCycle desk ["desk"] Layout.tab
      [deskPage "a.fubelt", Path.ofString "a.fubelt"]).2.map (·.reformatted) =
        .ok [deskPage "a.fubelt"] ∧
    (Reindent.Watch.runCycle returnDesk ["desk"] ['\r'] [deskPage "a.fubelt"]).2.map
      (·.reformatted) = .ok [deskPage "a.fubelt"] ∧
    (Reindent.Watch.runCycle returnDesk ["desk"] ['\r'] [deskPage "a.fubelt"]).1.tree.bytes?
      ["desk", "a.fubelt"] = returnDesk.bytes? ["desk", "a.fubelt"] := by
  have hshared : Path.sorted [deskPage "a.fubelt", Path.ofString "a.fubelt"] =
      [deskPage "a.fubelt", Path.ofString "a.fubelt"] :=
    List.mergeSort_of_pairwise (by decide +kernel)
  have hsingle : Path.sorted [deskPage "a.fubelt"] = [deskPage "a.fubelt"] :=
    List.mergeSort_of_pairwise (by decide +kernel)
  refine ⟨?_, ?_, ?_, ?_⟩
  · simp only [List.forall_mem_cons]
    exact ⟨⟨"<ul>\n<li>x</li>\n</ul>\n".toList, by decide +kernel⟩,
      ⟨"<ul>\n<li>x</li>\n</ul>\n".toList, by decide +kernel⟩, nofun⟩
  · rw [Reindent.Watch.runCycle, hshared]
    decide +kernel
  · rw [Reindent.Watch.runCycle, hsingle]
    decide +kernel
  · rw [Reindent.Watch.runCycle, hsingle]
    decide +kernel

end Watch
end Command
end Reindent
