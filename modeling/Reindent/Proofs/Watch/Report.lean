import Reindent.Proofs.Path.Order
import Reindent.Proofs.Watch.Visits

/-!
# What a watch cycle reports

A cycle goes over the paths of its event in path order.  A path that shares its file with no other
path of the event is judged by the tree that the cycle started with: it is reported as reformatted
if formatting changes what it reads as, and its file then has the formatted text.  Resolved paths
never share a file.

A cycle over paths that can be looked up comes to its end, and does what it reports.
-/

namespace Reindent
namespace Watch

/-- No other path of the event names the file that a path names. -/
def Alone (tree : FileTree) (cwd : Location) (event : List Path) (path : Path) : Prop :=
  ∀ other ∈ event, ∀ location, tree.target? cwd path = some location →
    tree.target? cwd other = some location → other = path

/-- What a cycle over an event reports and leaves behind, by the tree that it started with. -/
structure Settles (tree : FileTree) (cwd : Location) (unit : Text) (event : List Path)
    (after : FileTree) (cycle : Cycle) : Prop where
  changed_eq : cycle.changed = Path.sorted event
  shape : tree.SameShape after
  kept : ∀ location, (∀ path ∈ event, tree.target? cwd path ≠ some location) →
    after.node? location = tree.node? location
  -- The next two are for any event, the four after them for paths that share their file with none.
  bytes_eq : ∀ location, after.bytes? location =
    (tree.bytes? location).map (rewritten unit)^[visits tree cwd (Path.sorted event) location]
  mem_reformatted : ∀ path, path ∈ cycle.reformatted ↔
    ∃ before rest, Path.sorted event = before ++ path :: rest ∧
      UnsettledAfter tree cwd unit before path
  reformatted_iff : ∀ path ∈ event, Alone tree cwd event path →
    (path ∈ cycle.reformatted ↔
      ∃ text, Document.read tree cwd path = .ok text ∧ Layout.format unit text ≠ text)
  bytes_of_reformatted : ∀ path ∈ cycle.reformatted, Alone tree cwd event path →
    ∃ location text, tree.target? cwd path = some location ∧
      Document.read tree cwd path = .ok text ∧
      after.bytes? location = some (Layout.format unit text).toUtf8
  bytes_of_not_reformatted : ∀ path ∈ event, path ∉ cycle.reformatted →
    Alone tree cwd event path → ∀ location, tree.target? cwd path = some location →
      after.bytes? location = tree.bytes? location
  bytes_ne : '\r' ∉ unit → ∀ path ∈ cycle.reformatted, Alone tree cwd event path →
    ∀ location, tree.target? cwd path = some location →
      after.bytes? location ≠ tree.bytes? location
  failed_iff : ∀ path, path ∈ cycle.failed.map Prod.fst ↔
    path ∈ event ∧ tree.isFile cwd path = .ok true ∧
      ∃ cause, Document.read tree cwd path = .error (.document cause)
  failed_kept : ∀ path ∈ cycle.failed.map Prod.fst, ∀ location,
    tree.target? cwd path = some location → after.node? location = tree.node? location
  missing : ∀ path ∈ event, tree.isFile cwd path = .ok false →
    path ∉ cycle.reformatted ∧ path ∉ cycle.failed.map Prod.fst

section

variable {tree : FileTree} {cwd location : Location} {event : List Path} {path : Path}

/-- Two resolved paths never name one file. -/
theorem alone_of_isResolved
    (h : ∀ path ∈ event, path.IsResolved) (hpath : path ∈ event) (tree : FileTree)
    (cwd : Location) :
    Alone tree cwd event path := by
  intro other hother location htarget hsame
  apply (h other hother).eq_of_names_eq (h path hpath)
  rw [← FileTree.eq_names_of_target? (h path hpath) htarget,
    FileTree.eq_names_of_target? (h other hother) hsame]

/-- A path that names a file of its own is the only one to visit it. -/
theorem Alone.visits_eq
    (h : Alone tree cwd event path) (htarget : tree.target? cwd path = some location)
    {before rest : List Path} (hsplit : Path.sorted event = before ++ path :: rest) :
    visits tree cwd before location = 0 ∧ visits tree cwd (Path.sorted event) location = 1 := by
  have hnodup := Path.nodup_sorted event
  rw [hsplit, List.nodup_middle, List.nodup_cons, List.mem_append, not_or] at hnodup
  obtain ⟨⟨hbefore, hrest⟩, -⟩ := hnodup
  have hothers : ∀ paths : List Path, path ∉ paths → (∀ other ∈ paths, other ∈ event) →
      visits tree cwd paths location = 0 := by
    intro paths hpath hpaths
    rw [visits, List.countP_eq_zero]
    intro other hother hsame
    rw [h other (hpaths other hother) location htarget (of_decide_eq_true hsame)] at hother
    exact hpath hother
  have hevent : ∀ other ∈ before ++ path :: rest, other ∈ event := by
    intro other hother
    rwa [← hsplit, Path.mem_sorted] at hother
  have hzero := hothers before hbefore fun other hother =>
    hevent other (List.mem_append_left _ hother)
  have hafter := hothers rest hrest fun other hother =>
    hevent other (List.mem_append_right _ (List.mem_cons_of_mem _ hother))
  refine ⟨hzero, ?_⟩
  rw [visits] at hzero hafter
  rw [hsplit, visits, List.countP_append, hzero, List.countP_cons, hafter,
    if_pos (by simp [htarget])]

namespace Accounts

variable {unit : Text} {p : Progress} (h : Accounts tree cwd unit (Path.sorted event) p)
include h

theorem kept_of_visits_eq_zero
    (hzero : visits tree cwd (Path.sorted event) location = 0) :
    p.tree.node? location = tree.node? location := by
  apply h.shape.node?_eq
  rw [h.bytes_eq, hzero]
  exact Option.map_id_apply

theorem mem_reformatted_iff_of_alone
    (hpath : path ∈ event) (halone : Alone tree cwd event path) :
    path ∈ p.reformatted ↔
      ∃ text, Document.read tree cwd path = .ok text ∧ Layout.format unit text ≠ text := by
  rw [h.mem_reformatted]
  constructor
  · rintro ⟨before, rest, hsplit, location, bytes, htarget, hbytes, text, hdecoded, hne⟩
    obtain ⟨found, hfound, hprobe⟩ := FileTree.probe_of_target? htarget
    obtain rfl := Option.some.inj (hbytes.symm.trans hfound)
    rw [(halone.visits_eq htarget hsplit).1] at hdecoded
    exact ⟨text, (Document.read_eq_ok_iff_of_probe hprobe).mpr hdecoded, hne⟩
  · rintro ⟨text, hread, hne⟩
    obtain ⟨before, rest, hsplit⟩ := List.append_of_mem (Path.mem_sorted.mpr hpath)
    obtain ⟨location, bytes, hprobe⟩ := Document.exists_probe_of_read hread
    have htarget := FileTree.target?_eq_some_iff.mpr ⟨bytes, hprobe⟩
    have hbytes := FileTree.bytes?_eq_some_iff.mpr (FileTree.locate_of_probe hprobe).2
    refine ⟨before, rest, hsplit, location, bytes, htarget, hbytes, text, ?_, hne⟩
    rw [(halone.visits_eq htarget hsplit).1]
    exact (Document.read_eq_ok_iff_of_probe hprobe).mp hread

theorem mem_event_of_reformatted
    (hpath : path ∈ p.reformatted) :
    path ∈ event ∧ ∃ location, tree.target? cwd path = some location := by
  obtain ⟨before, rest, hsplit, location, -, htarget, -⟩ := (h.mem_reformatted path).mp hpath
  refine ⟨?_, location, htarget⟩
  rw [← Path.mem_sorted, hsplit]
  exact List.mem_append_right _ List.mem_cons_self

/-- A file that one path names alone is rewritten once. -/
theorem bytes_of_alone
    (hpath : path ∈ event) (halone : Alone tree cwd event path)
    (htarget : tree.target? cwd path = some location) :
    p.tree.bytes? location = (tree.bytes? location).map (rewritten unit) := by
  obtain ⟨before, rest, hsplit⟩ := List.append_of_mem (Path.mem_sorted.mpr hpath)
  rw [h.bytes_eq, (halone.visits_eq htarget hsplit).2, Function.iterate_one]

theorem mem_failed_iff :
    path ∈ p.failed.map Prod.fst ↔
      path ∈ event ∧ tree.isFile cwd path = .ok true ∧
        ∃ cause, Document.read tree cwd path = .error (.document cause) := by
  have hkeys : p.failed.map Prod.fst = (Path.sorted event).filter (isRejected tree cwd) := by
    rw [h.failed_eq, List.map_map]
    exact List.map_id _
  rw [hkeys, List.mem_filter, Path.mem_sorted, and_congr_right_iff]
  intro _
  cases htarget : tree.target? cwd path with
  | none =>
      rw [isRejected_of_target?_none htarget, FileTree.isFile_eq_true_iff_target?, htarget]
      simp
  | some location =>
      obtain ⟨bytes, -, hprobe⟩ := FileTree.probe_of_target? htarget
      rw [isRejected_of_probe hprobe, Document.exists_read_eq_error_iff_of_probe hprobe,
        FileTree.isFile_eq_true_iff_target?, htarget]
      simp

theorem bytes_of_reformatted
    (hpath : path ∈ p.reformatted) (halone : Alone tree cwd event path) :
    ∃ location text bytes, tree.target? cwd path = some location ∧
      Document.read tree cwd path = .ok text ∧ tree.bytes? location = some bytes ∧
      Unsettled unit bytes ∧ p.tree.bytes? location = some (Layout.format unit text).toUtf8 := by
  obtain ⟨hevent, location, htarget⟩ := h.mem_event_of_reformatted hpath
  obtain ⟨text, hread, hne⟩ := (h.mem_reformatted_iff_of_alone hevent halone).mp hpath
  obtain ⟨bytes, hbytes, hprobe⟩ := FileTree.probe_of_target? htarget
  have hdecoded := (Document.read_eq_ok_iff_of_probe hprobe).mp hread
  refine ⟨location, text, bytes, htarget, hread, hbytes, ⟨text, hdecoded, hne⟩, ?_⟩
  rw [h.bytes_of_alone hevent halone htarget, hbytes, Option.map_some,
    rewritten_of_ne hdecoded hne]

theorem bytes_of_not_reformatted
    (hpath : path ∈ event) (hnot : path ∉ p.reformatted) (halone : Alone tree cwd event path)
    (htarget : tree.target? cwd path = some location) :
    p.tree.bytes? location = tree.bytes? location := by
  obtain ⟨bytes, hbytes, hprobe⟩ := FileTree.probe_of_target? htarget
  rw [h.bytes_of_alone hpath halone htarget, hbytes, Option.map_some, Option.some.injEq]
  cases hdecoded : Text.ofDocument? bytes with
  | none => exact rewritten_of_none hdecoded unit
  | some text =>
      apply rewritten_of_same hdecoded
      by_contra hne
      apply hnot
      rw [h.mem_reformatted_iff_of_alone hpath halone]
      exact ⟨text, (Document.read_eq_ok_iff_of_probe hprobe).mpr hdecoded, hne⟩

/-- Bytes that are no text stay, however often they are visited. -/
theorem kept_of_failed
    (hpath : path ∈ p.failed.map Prod.fst) (htarget : tree.target? cwd path = some location) :
    p.tree.node? location = tree.node? location := by
  obtain ⟨-, -, hread⟩ := h.mem_failed_iff.mp hpath
  obtain ⟨bytes, hbytes, hprobe⟩ := FileTree.probe_of_target? htarget
  have hdecoded := (Document.exists_read_eq_error_iff_of_probe hprobe).mp hread
  apply h.shape.node?_eq
  rw [h.bytes_eq, hbytes, Option.map_some, iterate_of_none hdecoded]

theorem settles :
    Settles tree cwd unit event p.tree
      { reformatted := p.reformatted, failed := p.failed, changed := Path.sorted event } where
  changed_eq := rfl
  shape := h.shape
  kept := by
    intro location hlocation
    apply h.kept_of_visits_eq_zero
    rw [visits, List.countP_eq_zero]
    intro path hpath hsame
    exact hlocation path (Path.mem_sorted.mp hpath) (of_decide_eq_true hsame)
  bytes_eq := h.bytes_eq
  mem_reformatted := h.mem_reformatted
  reformatted_iff := fun path hpath halone => h.mem_reformatted_iff_of_alone hpath halone
  bytes_of_reformatted := by
    intro path hpath halone
    obtain ⟨location, text, -, htarget, hread, -, -, hafter⟩ :=
      h.bytes_of_reformatted hpath halone
    exact ⟨location, text, htarget, hread, hafter⟩
  bytes_of_not_reformatted := fun path hpath hnot halone location htarget =>
    h.bytes_of_not_reformatted hpath hnot halone htarget
  bytes_ne := by
    intro hunit path hpath halone location htarget
    obtain ⟨location', text, bytes, htarget', -, hbytes, hunsettled, -⟩ :=
      h.bytes_of_reformatted hpath halone
    obtain rfl := Option.some.inj (htarget.symm.trans htarget')
    rw [h.bytes_of_alone (h.mem_event_of_reformatted hpath).1 halone htarget, hbytes]
    intro heq
    exact (rewritten_ne_iff hunit bytes).mpr hunsettled (Option.some.inj heq)
  failed_iff := fun path => h.mem_failed_iff
  failed_kept := fun path hpath location htarget => h.kept_of_failed hpath htarget
  missing := by
    intro path hpath hmissing
    have hno : tree.isFile cwd path ≠ .ok true := by simp [hmissing]
    constructor
    · intro hmem
      exact hno (FileTree.isFile_eq_true_iff_target?.mpr (h.mem_event_of_reformatted hmem).2)
    · intro hmem
      exact hno (h.mem_failed_iff.mp hmem).2.1

end Accounts

end

/-- A cycle over paths that can be looked up comes to its end and does what it reports. -/
theorem exists_settles_runCycle
    {tree : FileTree} {cwd : Location} {event : List Path}
    (h : ∀ path ∈ event, ∃ found, tree.isFile cwd path = .ok found) (unit : Text) :
    ∃ p cycle, runCycle tree cwd unit event = (p, .ok cycle) ∧
      Settles tree cwd unit event p.tree cycle := by
  have hfound : ∀ path ∈ Path.sorted event, ∃ found, tree.isFile cwd path = .ok found :=
    fun path hpath => h path (Path.mem_sorted.mp hpath)
  have hnodup : ([] ++ Path.sorted event).Nodup := Path.nodup_sorted event
  obtain ⟨last, hrun, haccounts⟩ := (Accounts.initial tree cwd unit).run hnodup hfound
  refine ⟨last, _, ?_, haccounts.settles⟩
  rw [runCycle, hrun]
  rfl

end Watch
end Reindent
