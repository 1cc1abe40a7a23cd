import Mathlib.Data.List.Perm.Basic
import Reindent.Command.Format
import Reindent.Proofs.Command.Opening
import Reindent.Proofs.Document.Rewriting

/-!
# A run of the format command

A run goes over the documents one after the other and keeps a tally.  The tally is stated against
the tree that the run started with: since each document is met once, what a document reads as in the
middle of the run is what it read as at its beginning.  Every document is put in one place of the
tally, and the tree differs from the first one only at the documents that were written back.

All that can stop a run comes before its first document, so a run that stops has changed nothing.
-/

namespace Reindent
namespace Command
namespace Format

/-! ## The tally -/

/-- The documents that a tally has put somewhere, changed, unchanged and failed. -/
def Tally.paths (tally : Tally) : List Path :=
  tally.changed.map (·.path) ++ tally.unchanged ++ tally.failed.map Prod.fst

theorem Tally.paths_changed_perm (tally : Tally) (c : Document.Comparison) :
    { tally with changed := tally.changed ++ [c] }.paths.Perm (tally.paths ++ [c.path]) := by
  rw [List.perm_iff_count]
  intro path
  simp only [paths, List.map_append, List.count_append, List.map_cons, List.map_nil]
  omega

theorem Tally.paths_unchanged_perm (tally : Tally) (path : Path) :
    { tally with unchanged := tally.unchanged ++ [path] }.paths.Perm (tally.paths ++ [path]) := by
  rw [List.perm_iff_count]
  intro path
  simp only [paths, List.count_append]
  omega

theorem Tally.paths_failed_perm (tally : Tally) (path : Path) (message : String) :
    { tally with failed := tally.failed ++ [(path, message)] }.paths.Perm
      (tally.paths ++ [path]) := by
  simp [paths]

/-! ## One document -/

/-- What becomes of a found document: it fails, it stays, or it is changed. -/
theorem document_cases
    {p : Progress} {path : Path} (h : Document.IsFound p.tree path) (cwd : Location)
    (how : Document.Formatting) :
    (∃ cause, Document.read p.tree cwd path = .error (.document cause) ∧
      document cwd how p path = .ok { p with
        tally := { p.tally with
          failed := p.tally.failed.record path (Fault.document cause).message } }) ∨
    (∃ text, Document.read p.tree cwd path = .ok text ∧
      Assist.formatText how.unit how.range text = text ∧
      document cwd how p path = .ok { p with
        tally := { p.tally with unchanged := p.tally.unchanged ++ [path] }
        notes := p.notes ++ documentNotes how (Document.compared how path text) }) ∨
    (∃ text, Document.read p.tree cwd path = .ok text ∧
      Assist.formatText how.unit how.range text ≠ text ∧
      document cwd how p path = .ok
        { tree := if how.write then
            p.tree.put path.names (.file (Assist.formatText how.unit how.range text).toUtf8)
            else p.tree
          tally := { p.tally with
            changed := p.tally.changed ++ [Document.compared how path text] }
          notes := p.notes ++ documentNotes how (Document.compared how path text) }) := by
  cases hread : Document.read p.tree cwd path with
  | error fault =>
      left
      obtain ⟨cause, rfl⟩ := h.eq_document_of_read hread
      refine ⟨cause, rfl, ?_⟩
      rw [document, Document.format_of_read_error hread]
  | ok text =>
      right
      have hformat := Document.format_of_read_ok h hread how
      by_cases hsame : Assist.formatText how.unit how.range text = text
      · left
        have hchanged : (Document.compared how path text).changed = false := by
          simp [Document.Comparison.changed, Document.compared, hsame]
        refine ⟨text, rfl, hsame, ?_⟩
        rw [document, hformat]
        simp only [hchanged]
        rfl
      · right
        have hchanged : (Document.compared how path text).changed = true := by
          simp [Document.Comparison.changed, Document.compared, hsame]
        refine ⟨text, rfl, hsame, ?_⟩
        rw [document, hformat]
        simp only [hchanged, Bool.true_and]
        rfl

/-! ## All documents -/

/-- The tally and the tree of a run account for the documents that it is done with, by what they
read as in the tree that the run started with. -/
structure Accounts (tree : FileTree) (cwd : Location) (how : Document.Formatting)
    (done : List Path) (p : Progress) : Prop where
  done_found : ∀ path ∈ done, Document.IsFound tree path
  paths_perm : p.tally.paths.Perm done
  changed : ∀ c ∈ p.tally.changed, ∃ text, Document.read tree cwd c.path = .ok text ∧
    Assist.formatText how.unit how.range text ≠ text ∧ c = Document.compared how c.path text
  unchanged : ∀ path ∈ p.tally.unchanged, ∃ text, Document.read tree cwd path = .ok text ∧
    Assist.formatText how.unit how.range text = text
  failed : ∀ path ∈ p.tally.failed.map Prod.fst,
    ∃ cause, Document.read tree cwd path = .error (.document cause)
  still_found : ∀ path, Document.IsFound tree path → Document.IsFound p.tree path
  written : how.write = true → ∀ c ∈ p.tally.changed,
    p.tree.node? c.path.names = some (.file c.formatted.toUtf8)
  kept : ∀ location, (how.write = true → ∀ c ∈ p.tally.changed, c.path.names ≠ location) →
    p.tree.node? location = tree.node? location

namespace Accounts

variable {tree : FileTree} {cwd : Location} {how : Document.Formatting} {done : List Path}
  {p : Progress}

theorem initial (tree : FileTree) (cwd : Location) (how : Document.Formatting) :
    Accounts tree cwd how [] { tree } where
  done_found := nofun
  paths_perm := List.Perm.nil
  changed := nofun
  unchanged := nofun
  failed := nofun
  still_found := fun _ h => h
  written := fun _ => nofun
  kept := fun _ _ => rfl

theorem mem_done_of_changed
    (h : Accounts tree cwd how done p) {c : Document.Comparison} (hc : c ∈ p.tally.changed) :
    c.path ∈ done := by
  refine h.paths_perm.subset (List.mem_append_left _ (List.mem_append_left _ ?_))
  exact List.mem_map.mpr ⟨c, hc, rfl⟩

theorem not_mem_failed
    (h : Accounts tree cwd how done p) {path : Path} (hnew : path ∉ done) :
    path ∉ p.tally.failed.map Prod.fst :=
  fun hfailed => hnew (h.paths_perm.subset (List.mem_append_right _ hfailed))

/-- A changed document stands at another location than one that is still to come. -/
theorem names_ne
    (h : Accounts tree cwd how done p) {path : Path} (hfound : Document.IsFound tree path)
    (hnew : path ∉ done) {c : Document.Comparison} (hc : c ∈ p.tally.changed) :
    c.path.names ≠ path.names := by
  intro hnames
  have hdone := h.mem_done_of_changed hc
  rw [(h.done_found _ hdone).eq_of_names_eq hfound hnames] at hdone
  exact hnew hdone

theorem read_eq_of_not_mem
    (h : Accounts tree cwd how done p) {path : Path} (hfound : Document.IsFound tree path)
    (hnew : path ∉ done) :
    Document.read p.tree cwd path = Document.read tree cwd path := by
  have hnode := h.kept path.names fun _ c hc => h.names_ne hfound hnew hc
  exact hfound.read_congr (h.still_found path hfound) cwd hnode

/-! ### The step -/

section

variable (h : Accounts tree cwd how done p) {path : Path} (hfound : Document.IsFound tree path)
  (hnew : path ∉ done)
include h hfound

omit h in
theorem done_found_append
    (hdone : ∀ path ∈ done, Document.IsFound tree path) :
    ∀ other ∈ done ++ [path], Document.IsFound tree other := by
  intro other hother
  rcases List.mem_append.mp hother with hother | hother
  · exact hdone other hother
  · rw [List.mem_singleton.mp hother]
    exact hfound

include hnew in
theorem step_failed
    {cause : DocumentError} (hread : Document.read tree cwd path = .error (.document cause))
    (message : String) :
    Accounts tree cwd how (done ++ [path])
      { p with tally := { p.tally with failed := p.tally.failed.record path message } } := by
  rw [Advice.Failures.record_of_not_mem (h.not_mem_failed hnew)]
  refine ⟨done_found_append hfound h.done_found, ?_, h.changed, h.unchanged, ?_, h.still_found,
    h.written, h.kept⟩
  · exact (p.tally.paths_failed_perm path message).trans (h.paths_perm.append_right _)
  · intro other hother
    rw [List.map_append, List.mem_append] at hother
    rcases hother with hother | hother
    · exact h.failed other hother
    · rw [show other = path by simpa using hother]
      exact ⟨cause, hread⟩

theorem step_unchanged
    {text : Text} (hread : Document.read tree cwd path = .ok text)
    (hsame : Assist.formatText how.unit how.range text = text) (notes : List Note) :
    Accounts tree cwd how (done ++ [path])
      { p with tally := { p.tally with unchanged := p.tally.unchanged ++ [path] }, notes } := by
  refine ⟨done_found_append hfound h.done_found, ?_, h.changed, ?_, h.failed, h.still_found,
    h.written, h.kept⟩
  · exact (p.tally.paths_unchanged_perm path).trans (h.paths_perm.append_right _)
  · intro other hother
    rcases List.mem_append.mp hother with hother | hother
    · exact h.unchanged other hother
    · rw [List.mem_singleton.mp hother]
      exact ⟨text, hread, hsame⟩

include hnew in
theorem step_changed
    {text : Text} (hread : Document.read tree cwd path = .ok text)
    (hchanged : Assist.formatText how.unit how.range text ≠ text) (notes : List Note) :
    Accounts tree cwd how (done ++ [path])
      { tree := if how.write then
          p.tree.put path.names (.file (Assist.formatText how.unit how.range text).toUtf8)
          else p.tree
        tally := { p.tally with changed := p.tally.changed ++ [Document.compared how path text] }
        notes } := by
  obtain ⟨old, hold⟩ := (h.still_found path hfound).exists_file
  refine ⟨done_found_append hfound h.done_found, ?_, ?_, h.unchanged, h.failed, ?_, ?_, ?_⟩
  · exact (p.tally.paths_changed_perm _).trans (h.paths_perm.append_right _)
  · intro c hc
    rcases List.mem_append.mp hc with hc | hc
    · exact h.changed c hc
    · rw [List.mem_singleton.mp hc]
      exact ⟨text, hread, hchanged, rfl⟩
  · intro other hother
    dsimp only
    split
    · exact (h.still_found other hother).overwritten hold _
    · exact h.still_found other hother
  · intro hwrite c hc
    rw [if_pos hwrite]
    rcases List.mem_append.mp hc with hc | hc
    · rw [FileTree.node?_put_of_ne _ _ (h.names_ne hfound hnew hc)]
      exact h.written hwrite c hc
    · rw [List.mem_singleton.mp hc]
      exact FileTree.node?_overwritten hold _
  · intro location hlocation
    have hbefore : p.tree.node? location = tree.node? location :=
      h.kept location fun hwrite c hc => hlocation hwrite c (List.mem_append_left _ hc)
    dsimp only
    split
    · next hwrite =>
      have hne : path.names ≠ location :=
        hlocation hwrite _ (List.mem_append_right _ (List.mem_singleton.mpr rfl))
      rw [FileTree.node?_put_of_ne _ _ hne.symm, hbefore]
    · exact hbefore

include hnew in
/-- One more document is accounted for, and none of them stops the run. -/
theorem step :
    ∃ next, document cwd how p path = .ok next ∧ Accounts tree cwd how (done ++ [path]) next := by
  have hread := h.read_eq_of_not_mem hfound hnew
  rcases document_cases (h.still_found path hfound) cwd how with
    ⟨cause, hfails, hnext⟩ | ⟨text, hok, hsame, hnext⟩ | ⟨text, hok, hchanged, hnext⟩
  · exact ⟨_, hnext, h.step_failed hfound hnew (hread ▸ hfails) _⟩
  · exact ⟨_, hnext, h.step_unchanged hfound (hread ▸ hok) hsame _⟩
  · exact ⟨_, hnext, h.step_changed hfound hnew (hread ▸ hok) hchanged _⟩

end

/-! ### The run -/

theorem run
    {rest : List Path} (h : Accounts tree cwd how done p)
    (hfound : ∀ path ∈ rest, Document.IsFound tree path) (hnodup : (done ++ rest).Nodup) :
    ∃ last, documents cwd how p rest = (last, .ok ()) ∧
      Accounts tree cwd how (done ++ rest) last := by
  induction rest generalizing done p with
  | nil => exact ⟨p, rfl, by rwa [List.append_nil]⟩
  | cons path rest ih =>
      obtain ⟨hpath, hrest⟩ := List.forall_mem_cons.mp hfound
      have hnew : path ∉ done := by
        intro hmem
        exact (List.disjoint_of_nodup_append hnodup) hmem List.mem_cons_self
      obtain ⟨next, hnext, haccounts⟩ := h.step hpath hnew
      rw [List.append_cons] at hnodup ⊢
      obtain ⟨last, hlast, hall⟩ := ih haccounts hrest hnodup
      refine ⟨last, ?_, hall⟩
      rw [documents, hnext]
      exact hlast

end Accounts

end Format
end Command
end Reindent
