import Mathlib.Data.List.Nodup
import Mathlib.Logic.Function.Iterate
import Reindent.Proofs.Document.Access
import Reindent.Proofs.Document.Rewriting
import Reindent.Watch.Runner

/-!
# Visits of a watch cycle

A cycle visits path after path.  Each path that names a file rewrites the bytes of that file once.
Several paths can name one file, so a file has been rewritten as often as it was visited, and a path
is reported as reformatted by what the visits before its own have left.

Rewriting keeps the shape of the tree, and bytes that are no text stay as they are.
-/

namespace Reindent
namespace Watch

/-! ## Rewriting bytes -/

/-- The bytes are a text that formatting changes. -/
def Unsettled (unit : Text) (bytes : ByteArray) : Prop :=
  ∃ text, Text.ofDocument? bytes = some text ∧ Layout.format unit text ≠ text

/-- The bytes of a document after a visit: a text that formatting changes is written anew. -/
def rewritten (unit : Text) (bytes : ByteArray) : ByteArray :=
  match Text.ofDocument? bytes with
  | none => bytes
  | some text =>
    if Layout.format unit text = text then bytes else (Layout.format unit text).toUtf8

theorem rewritten_of_none
    {bytes : ByteArray} (h : Text.ofDocument? bytes = none) (unit : Text) :
    rewritten unit bytes = bytes := by
  rw [rewritten, h]

theorem rewritten_of_same
    {unit text : Text} {bytes : ByteArray} (h : Text.ofDocument? bytes = some text)
    (hsame : Layout.format unit text = text) :
    rewritten unit bytes = bytes := by
  simp only [rewritten, h, hsame, if_true]

theorem rewritten_of_ne
    {unit text : Text} {bytes : ByteArray} (h : Text.ofDocument? bytes = some text)
    (hne : Layout.format unit text ≠ text) :
    rewritten unit bytes = (Layout.format unit text).toUtf8 := by
  simp only [rewritten, h, hne, if_false]

/-- If the unit has no carriage return, a text that formatting changes gets other bytes. -/
theorem rewritten_ne_iff
    {unit : Text} (hunit : '\r' ∉ unit) (bytes : ByteArray) :
    rewritten unit bytes ≠ bytes ↔ Unsettled unit bytes := by
  cases hread : Text.ofDocument? bytes with
  | none => simp [rewritten, Unsettled, hread]
  | some text =>
      by_cases hsame : Layout.format unit text = text
      · simp [rewritten, Unsettled, hread, hsame]
      · rw [rewritten_of_ne hread hsame]
        exact iff_of_true (Assist.toUtf8_formatText_ne hunit none hread hsame)
          ⟨text, hread, hsame⟩

/-- A visit makes no text of bytes that are none, and leaves a text a text. -/
theorem ofDocument?_rewritten_eq_none_iff (unit : Text) (bytes : ByteArray) :
    Text.ofDocument? (rewritten unit bytes) = none ↔ Text.ofDocument? bytes = none := by
  cases hread : Text.ofDocument? bytes with
  | none => simp [rewritten_of_none hread, hread]
  | some text =>
      by_cases hsame : Layout.format unit text = text
      · simp [rewritten_of_same hread hsame, hread]
      · simp [rewritten_of_ne hread hsame, Text.ofDocument?_toUtf8]

theorem ofDocument?_iterate_eq_none_iff (unit : Text) (count : ℕ) (bytes : ByteArray) :
    Text.ofDocument? ((rewritten unit)^[count] bytes) = none ↔ Text.ofDocument? bytes = none := by
  induction count with
  | zero => rfl
  | succ count ih => rw [Function.iterate_succ_apply', ofDocument?_rewritten_eq_none_iff, ih]

theorem iterate_of_none
    {bytes : ByteArray} (h : Text.ofDocument? bytes = none) (unit : Text) (count : ℕ) :
    (rewritten unit)^[count] bytes = bytes :=
  Function.iterate_fixed (rewritten_of_none h unit) count

/-! ## One path -/

/-- A path that names no file is passed over. -/
theorem document_of_missing
    {cwd : Location} {p : Progress} {path : Path} (h : p.tree.isFile cwd path = .ok false)
    (unit : Text) :
    document cwd unit p path = .ok p := by
  rw [document, h]
  rfl

section

variable {cwd location : Location} {p : Progress} {path : Path} {bytes : ByteArray}
  (h : p.tree.probe cwd path = .ok (some (location, .file bytes)))
include h

theorem document_of_none
    (hdecoded : Text.ofDocument? bytes = none) (unit : Text) :
    document cwd unit p path = .ok { p with
      failed := p.failed.record path (Fault.document (.notText path)).message
      notes := p.notes ++ [warning (.document (.notText path))] } := by
  have hfile : p.tree.isFile cwd path = .ok true :=
    FileTree.isFile_eq_true_iff.mpr ⟨location, bytes, h⟩
  have hread := Document.read_of_probe h
  rw [hdecoded] at hread
  rw [document, hfile]
  simp only [bind, Except.bind, Document.format_of_read_error hread]
  rfl

theorem document_of_some
    {text : Text} (hdecoded : Text.ofDocument? bytes = some text) (unit : Text) :
    document cwd unit p path = .ok (if Layout.format unit text = text then p else { p with
      tree := p.tree.put location (.file (Layout.format unit text).toUtf8)
      reformatted := p.reformatted ++ [path] }) := by
  have hfile : p.tree.isFile cwd path = .ok true :=
    FileTree.isFile_eq_true_iff.mpr ⟨location, bytes, h⟩
  have hread := Document.read_of_probe h
  rw [hdecoded] at hread
  have hformatted : (Document.compared { unit } path text).formatted = Layout.format unit text :=
    rfl
  rw [document, hfile]
  simp only [bind, Except.bind, Document.format_of_probe h hread]
  by_cases hsame : Layout.format unit text = text
  · have hchanged : (Document.compared { unit } path text).changed = false := by
      rw [Document.Comparison.changed, hformatted, hsame]
      exact decide_eq_false (not_not.mpr rfl)
    simp only [hchanged, hsame]
    rfl
  · have hchanged : (Document.compared { unit } path text).changed = true :=
      decide_eq_true hsame
    simp only [hchanged, hsame, hformatted]
    rfl

end

/-- What a visit to a path that names a file does. -/
structure Visited (unit : Text) (location : Location) (bytes : ByteArray) (path : Path)
    (p next : Progress) : Prop where
  shape : p.tree.SameShape next.tree
  bytes_eq : next.tree.bytes? location = some (rewritten unit bytes)
  kept : ∀ other, other ≠ location → next.tree.bytes? other = p.tree.bytes? other
  mem_reformatted : ∀ other, other ∈ next.reformatted ↔
    other ∈ p.reformatted ∨ other = path ∧ Unsettled unit bytes
  failed_eq : next.failed =
    if Text.ofDocument? bytes = none then
      p.failed.record path (Fault.document (.notText path)).message
    else p.failed

theorem exists_visited
    {cwd location : Location} {p : Progress} {path : Path} {bytes : ByteArray}
    (h : p.tree.probe cwd path = .ok (some (location, .file bytes))) (unit : Text) :
    ∃ next, document cwd unit p path = .ok next ∧ Visited unit location bytes path p next := by
  have hnode := (FileTree.locate_of_probe h).2
  have hbytes : p.tree.bytes? location = some bytes := FileTree.bytes?_eq_some_iff.mpr hnode
  cases hdecoded : Text.ofDocument? bytes with
  | none =>
      refine ⟨_, document_of_none h hdecoded unit, .refl _, ?_, fun _ _ => rfl, ?_, ?_⟩
      · rw [rewritten_of_none hdecoded, hbytes]
      · simp [Unsettled, hdecoded]
      · rw [if_pos hdecoded]
  | some text =>
      have hsome : Text.ofDocument? bytes ≠ none := by simp [hdecoded]
      refine ⟨_, document_of_some h hdecoded unit, ?_⟩
      by_cases hsame : Layout.format unit text = text
      · rw [if_pos hsame]
        refine ⟨.refl _, ?_, fun _ _ => rfl, ?_, ?_⟩
        · rw [rewritten_of_same hdecoded hsame, hbytes]
        · simp [Unsettled, hdecoded, hsame]
        · rw [if_neg hsome]
      · rw [if_neg hsame]
        refine ⟨FileTree.sameShape_overwritten hnode _, ?_, ?_, ?_, ?_⟩
        · rw [rewritten_of_ne hdecoded hsame, FileTree.bytes?_eq_some_iff]
          exact FileTree.node?_overwritten hnode _
        · intro other hother
          rw [FileTree.bytes?, FileTree.bytes?, FileTree.node?_put_of_ne _ _ hother]
        · simp [Unsettled, hdecoded, hsame]
        · rw [if_neg hsome]

/-! ## A list of paths -/

/-- How often the paths of a list lead to the file at a location. -/
def visits (tree : FileTree) (cwd : Location) (paths : List Path) (location : Location) : ℕ :=
  paths.countP fun path => tree.target? cwd path = some location

theorem visits_concat
    (tree : FileTree) (cwd : Location) (paths : List Path) (path : Path) (location : Location) :
    visits tree cwd (paths ++ [path]) location =
      visits tree cwd paths location + if tree.target? cwd path = some location then 1 else 0 := by
  simp [visits, List.countP_append, List.countP_singleton]

/-- A path names a text that formatting changes, after other paths were visited. -/
def UnsettledAfter (tree : FileTree) (cwd : Location) (unit : Text) (before : List Path)
    (path : Path) : Prop :=
  ∃ location bytes, tree.target? cwd path = some location ∧ tree.bytes? location = some bytes ∧
    Unsettled unit ((rewritten unit)^[visits tree cwd before location] bytes)

/-- A path names a file whose bytes are no text. -/
def isRejected (tree : FileTree) (cwd : Location) (path : Path) : Bool :=
  match tree.probe cwd path with
  | .ok (some (_, .file bytes)) => (Text.ofDocument? bytes).isNone
  | _ => false

/-- The entry of a report for a file whose bytes are no text. -/
def rejection (path : Path) : Path × String :=
  (path, (Fault.document (.notText path)).message)

/-- The report and the tree of a cycle account for the paths that it is done with, by the tree that
it started with. -/
structure Accounts (tree : FileTree) (cwd : Location) (unit : Text) (done : List Path)
    (p : Progress) : Prop where
  shape : tree.SameShape p.tree
  bytes_eq : ∀ location, p.tree.bytes? location =
    (tree.bytes? location).map (rewritten unit)^[visits tree cwd done location]
  mem_reformatted : ∀ path, path ∈ p.reformatted ↔
    ∃ before rest, done = before ++ path :: rest ∧ UnsettledAfter tree cwd unit before path
  failed_eq : p.failed = (done.filter (isRejected tree cwd)).map rejection

theorem isRejected_of_target?_none
    {tree : FileTree} {cwd : Location} {path : Path} (h : tree.target? cwd path = none) :
    isRejected tree cwd path = false := by
  rw [FileTree.target?] at h
  rw [isRejected]
  rcases hprobe : tree.probe cwd path with cause | _ | ⟨location, ⟨bytes⟩ | _⟩
  · rfl
  · rfl
  · simp [hprobe] at h
  · rfl

theorem isRejected_of_probe
    {tree : FileTree} {cwd location : Location} {path : Path} {bytes : ByteArray}
    (h : tree.probe cwd path = .ok (some (location, .file bytes))) :
    isRejected tree cwd path = true ↔ Text.ofDocument? bytes = none := by
  rw [isRejected, h]
  exact Option.isNone_iff_eq_none

theorem not_unsettledAfter_of_target?_none
    {tree : FileTree} {cwd : Location} {path : Path} (h : tree.target? cwd path = none)
    (unit : Text) (before : List Path) :
    ¬ UnsettledAfter tree cwd unit before path := by
  rintro ⟨location, bytes, htarget, -⟩
  rw [h] at htarget
  cases htarget

theorem unsettledAfter_iff
    {tree : FileTree} {cwd location : Location} {path : Path} {bytes : ByteArray}
    (htarget : tree.target? cwd path = some location)
    (hbytes : tree.bytes? location = some bytes) (unit : Text) (before : List Path) :
    UnsettledAfter tree cwd unit before path ↔
      Unsettled unit ((rewritten unit)^[visits tree cwd before location] bytes) := by
  constructor
  · rintro ⟨location', bytes', htarget', hbytes', hunsettled⟩
    obtain rfl := Option.some.inj (htarget.symm.trans htarget')
    obtain rfl := Option.some.inj (hbytes.symm.trans hbytes')
    exact hunsettled
  · exact fun hunsettled => ⟨location, bytes, htarget, hbytes, hunsettled⟩

/-- A place in a list with one more element is a place in the list or the last one. -/
theorem exists_split_concat_iff
    {α : Type} {done : List α} {last a : α} {q : List α → Prop} :
    (∃ before rest, done ++ [last] = before ++ a :: rest ∧ q before) ↔
      (∃ before rest, done = before ++ a :: rest ∧ q before) ∨ a = last ∧ q done := by
  constructor
  · rintro ⟨before, rest, heq, hq⟩
    rcases List.eq_nil_or_concat rest with rfl | ⟨init, x, rfl⟩
    · obtain ⟨rfl, hlast⟩ := List.append_inj' heq rfl
      right
      exact ⟨(List.cons.inj hlast).1.symm, hq⟩
    · rw [List.concat_eq_append, ← List.cons_append, ← List.append_assoc] at heq
      obtain ⟨rfl, -⟩ := List.append_inj' heq rfl
      left
      exact ⟨before, init, rfl, hq⟩
  · rintro (⟨before, rest, rfl, hq⟩ | ⟨rfl, hq⟩)
    · exact ⟨before, rest ++ [last], by simp, hq⟩
    · exact ⟨done, [], rfl, hq⟩

namespace Accounts

variable {tree : FileTree} {cwd location : Location} {unit : Text} {done : List Path}
  {p : Progress} {path : Path}

theorem initial (tree : FileTree) (cwd : Location) (unit : Text) :
    Accounts tree cwd unit [] { tree } where
  shape := .refl tree
  bytes_eq := by
    intro location
    exact Option.map_id.symm ▸ rfl
  mem_reformatted := by
    intro path
    simp
  failed_eq := rfl

theorem probe
    (h : Accounts tree cwd unit done p) (htarget : tree.target? cwd path = some location)
    {bytes : ByteArray} (hbytes : tree.bytes? location = some bytes) :
    p.tree.probe cwd path =
      .ok (some (location, .file ((rewritten unit)^[visits tree cwd done location] bytes))) := by
  rw [← h.shape.target?_eq] at htarget
  obtain ⟨now, hnow, hprobe⟩ := FileTree.probe_of_target? htarget
  rw [h.bytes_eq, hbytes, Option.map_some, Option.some.injEq] at hnow
  rw [hprobe, hnow]

theorem not_mem_failed
    (h : Accounts tree cwd unit done p) (hnew : path ∉ done) :
    path ∉ p.failed.map Prod.fst := by
  rw [h.failed_eq, List.map_map]
  intro hmem
  obtain ⟨other, hother, rfl⟩ := List.mem_map.mp hmem
  exact hnew (List.mem_of_mem_filter hother)

/-! ### The step -/

theorem step_missing
    (h : Accounts tree cwd unit done p) (htarget : tree.target? cwd path = none) :
    Accounts tree cwd unit (done ++ [path]) p where
  shape := h.shape
  bytes_eq := by
    intro location
    rw [visits_concat, htarget, if_neg nofun, Nat.add_zero, h.bytes_eq]
  mem_reformatted := by
    intro other
    rw [exists_split_concat_iff, h.mem_reformatted]
    refine (or_iff_left ?_).symm
    rintro ⟨rfl, hunsettled⟩
    exact not_unsettledAfter_of_target?_none htarget unit done hunsettled
  failed_eq := by
    rw [h.failed_eq, List.filter_append, List.filter_singleton,
      isRejected_of_target?_none htarget]
    simp

theorem step_visited
    (h : Accounts tree cwd unit done p) (hnew : path ∉ done) {bytes : ByteArray}
    (hprobe : tree.probe cwd path = .ok (some (location, .file bytes))) {next : Progress}
    (hvisited : Visited unit location
      ((rewritten unit)^[visits tree cwd done location] bytes) path p next) :
    Accounts tree cwd unit (done ++ [path]) next := by
  have htarget : tree.target? cwd path = some location :=
    FileTree.target?_eq_some_iff.mpr ⟨bytes, hprobe⟩
  have hbytes : tree.bytes? location = some bytes :=
    FileTree.bytes?_eq_some_iff.mpr (FileTree.locate_of_probe hprobe).2
  have hdecoded := ofDocument?_iterate_eq_none_iff unit (visits tree cwd done location) bytes
  refine ⟨h.shape.trans hvisited.shape, ?_, ?_, ?_⟩
  · intro other
    rw [visits_concat, htarget]
    by_cases hother : other = location
    · subst hother
      rw [hvisited.bytes_eq, hbytes, if_pos rfl, Option.map_some, Function.iterate_succ_apply']
    · have hne : some location ≠ some other := fun heq => hother (Option.some.inj heq).symm
      rw [hvisited.kept other hother, h.bytes_eq, if_neg hne, Nat.add_zero]
  · intro other
    rw [hvisited.mem_reformatted, h.mem_reformatted, exists_split_concat_iff]
    refine or_congr_right (and_congr_right ?_)
    rintro rfl
    exact (unsettledAfter_iff htarget hbytes unit done).symm
  · rw [hvisited.failed_eq, List.filter_append, List.filter_singleton]
    by_cases hnone : Text.ofDocument? bytes = none
    · rw [if_pos (hdecoded.mpr hnone),
        Advice.Failures.record_of_not_mem (h.not_mem_failed hnew), h.failed_eq,
        (isRejected_of_probe hprobe).mpr hnone]
      simp [rejection]
    · have hrejected : isRejected tree cwd path = false := by
        rw [← Bool.not_eq_true, isRejected_of_probe hprobe]
        exact hnone
      rw [if_neg (mt hdecoded.mp hnone), h.failed_eq, hrejected]
      simp

/-- One more path is accounted for, and none that can be looked up stops the cycle. -/
theorem step
    (h : Accounts tree cwd unit done p) (hnew : path ∉ done) {found : Bool}
    (hfound : tree.isFile cwd path = .ok found) :
    ∃ next, document cwd unit p path = .ok next ∧
      Accounts tree cwd unit (done ++ [path]) next := by
  cases htarget : tree.target? cwd path with
  | none =>
      have hmissing : tree.isFile cwd path = .ok false := by
        cases found with
        | false => exact hfound
        | true =>
            obtain ⟨location, hlocation⟩ := FileTree.isFile_eq_true_iff_target?.mp hfound
            rw [htarget] at hlocation
            cases hlocation
      rw [← h.shape.isFile_eq] at hmissing
      exact ⟨p, document_of_missing hmissing unit, h.step_missing htarget⟩
  | some location =>
      obtain ⟨bytes, hbytes, hprobe⟩ := FileTree.probe_of_target? htarget
      obtain ⟨next, hnext, hvisited⟩ := exists_visited (h.probe htarget hbytes) unit
      exact ⟨next, hnext, h.step_visited hnew hprobe hvisited⟩

/-! ### The run -/

theorem run
    {rest : List Path} (h : Accounts tree cwd unit done p) (hnodup : (done ++ rest).Nodup)
    (hfound : ∀ path ∈ rest, ∃ found, tree.isFile cwd path = .ok found) :
    ∃ last, documents cwd unit p rest = (last, .ok ()) ∧
      Accounts tree cwd unit (done ++ rest) last := by
  induction rest generalizing done p with
  | nil => exact ⟨p, rfl, by rwa [List.append_nil]⟩
  | cons path rest ih =>
      obtain ⟨⟨found, hpath⟩, hrest⟩ := List.forall_mem_cons.mp hfound
      have hnew : path ∉ done := by
        intro hmem
        exact (List.disjoint_of_nodup_append hnodup) hmem List.mem_cons_self
      obtain ⟨next, hnext, haccounts⟩ := h.step hnew hpath
      rw [List.append_cons] at hnodup ⊢
      obtain ⟨last, hlast, hall⟩ := ih haccounts hnodup hrest
      refine ⟨last, ?_, hall⟩
      rw [documents, hnext]
      exact hlast

end Accounts

end Watch
end Reindent
