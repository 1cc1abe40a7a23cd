import Reindent.Proofs.Command.FormatRun

/-!
# What the format command leaves behind

The command prepares first: it opens the project, reads the range of lines, searches for documents
and makes the unit of indentation.  If that fails, it stops with the exit code for a bad project or
with a crash, and the tree is as it was.  If not, it never stops: every document that it found is
reported in one place, the files with new bytes are those reported as changed, and the exit code
says whether documents failed or a check did.
-/

namespace Reindent
namespace Command

/-- The command stopped: it crashed, or it found no project, range or documents to work with. -/
def Outcome.Stopped (out : Outcome) : Prop :=
  out.exit = .ok badProject ∨ ∃ cause, out.exit = .error cause

theorem stopped_failed
    {fault : Fault} (h : ∀ cause, fault ≠ .document cause) (session : Session) (json : Bool)
    (command : String) (notes : List Note) :
    (failed session json command notes fault).Stopped ∧
      (failed session json command notes fault).tree = session.tree := by
  cases fault with
  | crash cause => exact ⟨Or.inr ⟨cause, rfl⟩, rfl⟩
  | document cause => exact absurd rfl (h cause)
  | settings cause => cases json <;> exact ⟨Or.inl rfl, rfl⟩
  | noSuchPath path => cases json <;> exact ⟨Or.inl rfl, rfl⟩
  | missingPackage message => cases json <;> exact ⟨Or.inl rfl, rfl⟩

namespace Format

/-! ## Before the first document -/

/-- The documents to format and how, or what stops the run before the first of them. -/
def prepared (session : Session) (request : Request) :
    Except Fault (List Path × Document.Formatting) := do
  let project ← (openProject session request.project).2
  let range ← rangeOf request
  chosen session request project range

theorem sparesDocuments_rangeOf (request : Request) :
    SparesDocuments (rangeOf request) := by
  rw [rangeOf]
  split
  · exact SparesDocuments.ok _
  · exact SparesDocuments.error nofun
  · split
    · exact SparesDocuments.ok _
    · exact SparesDocuments.error nofun

theorem sparesDocuments_chosen (session : Session) (request : Request) (project : Workspace)
    (range : Option Assist.LineRange) :
    SparesDocuments (chosen session request project range) := by
  refine (Selection.sparesDocuments_documents _).bind fun found => ?_
  dsimp only
  split
  · exact SparesDocuments.error nofun
  · exact (SparesDocuments.orCrash _).bind fun unit => SparesDocuments.ok _

theorem sparesDocuments_prepared (session : Session) (request : Request) :
    SparesDocuments (prepared session request) := by
  refine (sparesDocuments_openProject session request.project).bind fun project => ?_
  refine (sparesDocuments_rangeOf request).bind fun range => ?_
  exact sparesDocuments_chosen session request project range

theorem exists_of_chosen
    {session : Session} {request : Request} {project : Workspace}
    {range : Option Assist.LineRange} {docs : List Path} {how : Document.Formatting}
    (h : chosen session request project range = .ok (docs, how)) :
    Selection.documents session.tree session.cwd project.settings.extensions
        project.settings.excluded (targets project request.paths) = .ok docs ∧
      ∃ unit, project.settings.unit session.memory = .ok unit ∧
        how = { unit, range, write := writes request } := by
  obtain ⟨found, hfound, h⟩ := exists_of_bind_eq_ok h
  dsimp only at h
  split at h
  · cases h
  · obtain ⟨unit, hunit, h⟩ := exists_of_bind_eq_ok h
    obtain ⟨rfl, rfl⟩ := Prod.mk.inj (Except.ok.inj h)
    exact ⟨hfound, unit, eq_ok_of_mapError (eq_ok_of_orCrash hunit), rfl⟩

/-! ## The two ways a run ends -/

/-- Without a project the run is over, wherever the text was to come from. -/
theorem perform_of_openProject_error
    {session : Session} {request : Request} {fault : Fault}
    (h : (openProject session request.project).2 = .error fault) :
    (perform session request).tree = session.tree ∧
      (perform session request).result = .error fault := by
  rcases hopen : openProject session request.project with ⟨opening, opened⟩
  rw [hopen] at h
  cases h
  simp [perform, hopen, bind, Except.bind]

theorem perform_of_rangeOf_error
    {session : Session} {request : Request} {project : Workspace} {fault : Fault}
    (hproject : (openProject session request.project).2 = .ok project)
    (h : rangeOf request = .error fault) :
    (perform session request).tree = session.tree ∧
      (perform session request).result = .error fault := by
  rcases hopen : openProject session request.project with ⟨opening, opened⟩
  rw [hopen] at hproject
  cases hproject
  simp [perform, hopen, h, bind, Except.bind]

section

variable {session : Session} {request : Request} (hstdin : request.stdin = false)
include hstdin

/-- With a project and a range, the files are all that is left. -/
theorem perform_eq_performFiles
    {project : Workspace} {range : Option Assist.LineRange}
    (hproject : (openProject session request.project).2 = .ok project)
    (hrange : rangeOf request = .ok range) :
    (perform session request).tree = (performFiles session request project range).tree ∧
      (perform session request).result = (performFiles session request project range).result := by
  rcases hopen : openProject session request.project with ⟨opening, opened⟩
  rw [hopen] at hproject
  cases hproject
  simp [perform, hopen, hrange, hstdin, bind, Except.bind, pure, Except.pure]

theorem perform_of_prepared_error
    {fault : Fault} (h : prepared session request = .error fault) :
    (perform session request).tree = session.tree ∧
      (perform session request).result = .error fault := by
  rw [prepared] at h
  cases hproject : (openProject session request.project).2 with
  | error cause =>
      rw [hproject] at h
      cases h
      exact perform_of_openProject_error hproject
  | ok project =>
      cases hrange : rangeOf request with
      | error cause =>
          rw [hproject, hrange] at h
          cases h
          exact perform_of_rangeOf_error hproject hrange
      | ok range =>
          rw [hproject, hrange] at h
          obtain ⟨htree, hresult⟩ := perform_eq_performFiles hstdin hproject hrange
          have hchosen : chosen session request project range = .error fault := h
          rw [htree, hresult, performFiles, hchosen]
          exact ⟨rfl, rfl⟩

/-- With documents to format, the run does what their formatting does, and a crash ends it there. -/
theorem perform_of_prepared
    {docs : List Path} {how : Document.Formatting} {last : Progress} {ended : Except Crash Unit}
    (h : prepared session request = .ok (docs, how))
    (hrun : documents session.cwd how { tree := session.tree } docs = (last, ended)) :
    (perform session request).tree = last.tree ∧
      (perform session request).result =
        (orCrash ended).map fun _ => .files docs.length last.tally := by
  obtain ⟨project, hproject, h⟩ := exists_of_bind_eq_ok h
  obtain ⟨range, hrange, hchosen⟩ := exists_of_bind_eq_ok h
  obtain ⟨htree, hresult⟩ := perform_eq_performFiles hstdin hproject hrange
  rw [htree, hresult, performFiles, hchosen]
  cases ended <;> simp [hrun, orCrash, Except.mapError, Except.map]

theorem perform_of_prepared_ok
    {docs : List Path} {how : Document.Formatting} {last : Progress}
    (h : prepared session request = .ok (docs, how))
    (hrun : documents session.cwd how { tree := session.tree } docs = (last, .ok ())) :
    (perform session request).tree = last.tree ∧
      (perform session request).result = .ok (.files docs.length last.tally) :=
  perform_of_prepared hstdin h hrun

end

theorem run_of_error
    {session : Session} {request : Request} {fault : Fault}
    (hfault : ∀ cause, fault ≠ .document cause)
    (htree : (perform session request).tree = session.tree)
    (hresult : (perform session request).result = .error fault) :
    (run session request).Stopped ∧ (run session request).tree = session.tree := by
  rw [run]
  simp only [hresult, htree]
  exact stopped_failed hfault _ _ _ _

theorem exit_files (request : Request) (count : ℕ) (tally : Tally) :
    Result.exit request (.files count tally) =
      if tally.failed ≠ [] then badDocument
      else if request.check = true ∧ tally.changed ≠ [] then checkFailed
      else success := by
  simp [Result.exit, Result.checkFails]

theorem exit_files_ne_badProject (request : Request) (count : ℕ) (tally : Tally) :
    Result.exit request (.files count tally) ≠ badProject := by
  rw [exit_files]
  split
  · decide
  · split <;> decide

/-! ## What a finished run has done -/

/-- What a run that went over all its documents reports and leaves behind, by the tree that it
started with. -/
structure Settles (tree : FileTree) (cwd : Location) (how : Document.Formatting)
    (docs : List Path) (tally : Tally) (after : FileTree) : Prop where
  nodup : docs.Nodup
  paths_perm : tally.paths.Perm docs
  failed_iff : ∀ path ∈ docs, path ∈ tally.failed.map Prod.fst ↔
    ∃ cause, Document.read tree cwd path = .error (.document cause)
  changed_iff : ∀ path ∈ docs, path ∈ tally.changed.map (·.path) ↔
    ∃ text, Document.read tree cwd path = .ok text ∧
      Assist.formatText how.unit how.range text ≠ text
  kept : how.write = false → ∀ location, after.bytes? location = tree.bytes? location
  written_iff : how.write = true → ∀ location, after.bytes? location ≠ tree.bytes? location ↔
    Project.pathOf location ∈ tally.changed.map (·.path)
  bytes : how.write = true → ∀ path ∈ tally.changed.map (·.path), ∃ text,
    Document.read tree cwd path = .ok text ∧
      after.bytes? path.names = some (Assist.formatText how.unit how.range text).toUtf8

namespace Accounts

variable {tree : FileTree} {cwd : Location} {how : Document.Formatting} {docs : List Path}
  {p : Progress}

theorem exists_text_of_changed
    (h : Accounts tree cwd how docs p) {path : Path}
    (hchanged : path ∈ p.tally.changed.map (·.path)) :
    ∃ text, Document.read tree cwd path = .ok text ∧
      Assist.formatText how.unit how.range text ≠ text := by
  obtain ⟨c, hc, rfl⟩ := List.mem_map.mp hchanged
  obtain ⟨text, hread, hne, -⟩ := h.changed c hc
  exact ⟨text, hread, hne⟩

/-- Each document is in the place of the tally that its text calls for. -/
theorem place_cases
    (h : Accounts tree cwd how docs p) {path : Path} (hpath : path ∈ docs) :
    (path ∈ p.tally.changed.map (·.path) ∧ ∃ text, Document.read tree cwd path = .ok text ∧
      Assist.formatText how.unit how.range text ≠ text) ∨
    (∃ text, Document.read tree cwd path = .ok text ∧
      Assist.formatText how.unit how.range text = text) ∨
    (path ∈ p.tally.failed.map Prod.fst ∧
      ∃ cause, Document.read tree cwd path = .error (.document cause)) := by
  have hplace := h.paths_perm.symm.subset hpath
  rw [Tally.paths, List.mem_append, List.mem_append] at hplace
  rcases hplace with (hchanged | hunchanged) | hfailed
  · left
    exact ⟨hchanged, h.exists_text_of_changed hchanged⟩
  · right; left
    exact h.unchanged path hunchanged
  · right; right
    exact ⟨hfailed, h.failed path hfailed⟩

theorem failed_iff
    (h : Accounts tree cwd how docs p) {path : Path} (hpath : path ∈ docs) :
    path ∈ p.tally.failed.map Prod.fst ↔
      ∃ cause, Document.read tree cwd path = .error (.document cause) := by
  constructor
  · exact h.failed path
  · rintro ⟨cause, hread⟩
    rcases h.place_cases hpath with ⟨-, text, hok, -⟩ | ⟨text, hok, -⟩ | ⟨hfailed, -⟩
    · exact absurd (hread.symm.trans hok) nofun
    · exact absurd (hread.symm.trans hok) nofun
    · exact hfailed

theorem changed_iff
    (h : Accounts tree cwd how docs p) {path : Path} (hpath : path ∈ docs) :
    path ∈ p.tally.changed.map (·.path) ↔
      ∃ text, Document.read tree cwd path = .ok text ∧
        Assist.formatText how.unit how.range text ≠ text := by
  constructor
  · exact h.exists_text_of_changed
  · rintro ⟨text, hread, hne⟩
    rcases h.place_cases hpath with ⟨hchanged, -⟩ | ⟨other, hok, hsame⟩ | ⟨-, cause, herror⟩
    · exact hchanged
    · obtain rfl : text = other := Except.ok.inj (hread.symm.trans hok)
      exact absurd hsame hne
    · exact absurd (hread.symm.trans herror) nofun

theorem bytes?_of_changed
    (h : Accounts tree cwd how docs p) (hwrite : how.write = true) {c : Document.Comparison}
    (hc : c ∈ p.tally.changed) :
    ∃ text, Document.read tree cwd c.path = .ok text ∧
      Assist.formatText how.unit how.range text ≠ text ∧
      p.tree.bytes? c.path.names = some (Assist.formatText how.unit how.range text).toUtf8 := by
  obtain ⟨text, hread, hne, hcompared⟩ := h.changed c hc
  refine ⟨text, hread, hne, ?_⟩
  rw [FileTree.bytes?, h.written hwrite c hc, hcompared]
  rfl

/-- A document that is written back does not keep its bytes. -/
theorem bytes?_ne_of_changed
    (h : Accounts tree cwd how docs p) (hwrite : how.write = true) (hreturn : '\r' ∉ how.unit)
    {c : Document.Comparison} (hc : c ∈ p.tally.changed) :
    p.tree.bytes? c.path.names ≠ tree.bytes? c.path.names := by
  obtain ⟨text, hread, hne, hafter⟩ := h.bytes?_of_changed hwrite hc
  have hfound := h.done_found _ (h.mem_done_of_changed hc)
  obtain ⟨-, bytes, hbytes, hdecoded⟩ := hfound.exists_bytes_of_read hread
  rw [hafter, FileTree.bytes?, hbytes]
  intro heq
  exact Assist.toUtf8_formatText_ne hreturn how.range hdecoded hne (Option.some.inj heq)

theorem written_iff
    (h : Accounts tree cwd how docs p) (hwrite : how.write = true) (hreturn : '\r' ∉ how.unit)
    (location : Location) :
    p.tree.bytes? location ≠ tree.bytes? location ↔
      Project.pathOf location ∈ p.tally.changed.map (·.path) := by
  constructor
  · intro hne
    by_contra hnot
    apply hne
    rw [FileTree.bytes?, FileTree.bytes?, h.kept location]
    intro _ c hc hnames
    apply hnot
    have hroot := (h.done_found _ (h.mem_done_of_changed hc)).root_eq
    refine List.mem_map.mpr ⟨c, hc, ?_⟩
    rw [Project.pathOf, ← hnames, ← hroot]
  · intro hchanged
    obtain ⟨c, hc, hpath⟩ := List.mem_map.mp hchanged
    have hnames : location = c.path.names := by
      rw [hpath]
      rfl
    rw [hnames]
    exact h.bytes?_ne_of_changed hwrite hreturn hc

theorem settles
    (h : Accounts tree cwd how docs p) (hnodup : docs.Nodup) (hreturn : '\r' ∉ how.unit) :
    Settles tree cwd how docs p.tally p.tree where
  nodup := hnodup
  paths_perm := h.paths_perm
  failed_iff := fun _ hpath => h.failed_iff hpath
  changed_iff := fun _ hpath => h.changed_iff hpath
  kept := by
    intro hwrite location
    rw [FileTree.bytes?, FileTree.bytes?, h.kept location]
    intro hwrites
    rw [hwrite] at hwrites
    cases hwrites
  written_iff := fun hwrite => h.written_iff hwrite hreturn
  bytes := by
    intro hwrite path hpath
    obtain ⟨c, hc, rfl⟩ := List.mem_map.mp hpath
    obtain ⟨text, hread, -, hbytes⟩ := h.bytes?_of_changed hwrite hc
    exact ⟨text, hread, hbytes⟩

end Accounts

/-- A run that is prepared goes over all its documents and accounts for them. -/
theorem exists_accounts
    {session : Session} {request : Request} (hstdin : request.stdin = false)
    {docs : List Path} {how : Document.Formatting}
    (hprepared : prepared session request = .ok (docs, how))
    (hnodup : docs.Nodup) (hfound : ∀ path ∈ docs, Document.IsFound session.tree path) :
    ∃ last, Accounts session.tree session.cwd how docs last ∧
      (perform session request).tree = last.tree ∧
      (perform session request).result = .ok (.files docs.length last.tally) := by
  obtain ⟨last, hrun, haccounts⟩ :=
    (Accounts.initial session.tree session.cwd how).run hfound hnodup
  obtain ⟨htree, hresult⟩ := perform_of_prepared_ok hstdin hprepared hrun
  exact ⟨last, haccounts, htree, hresult⟩

theorem run_of_ok
    {session : Session} {request : Request} {count : ℕ} {tally : Tally}
    (hresult : (perform session request).result = .ok (.files count tally)) :
    ¬ (run session request).Stopped ∧
      (run session request).tree = (perform session request).tree ∧
      (run session request).exit = .ok (Result.exit request (.files count tally)) ∧
      (run session request).output =
        if request.json then [.value (Result.json request (.files count tally))]
        else Result.output request (.files count tally) := by
  have hexit : (run session request).exit = .ok (Result.exit request (.files count tally)) := by
    rw [run]
    simp only [hresult]
  refine ⟨?_, ?_, hexit, ?_⟩
  · rintro (hbad | ⟨cause, hcrash⟩)
    · rw [hexit] at hbad
      exact exit_files_ne_badProject request count tally (Except.ok.inj hbad)
    · rw [hexit] at hcrash
      cases hcrash
  · rw [run]
    simp only [hresult]
  · rw [run]
    simp only [hresult]

/-- The command touches exactly the files that it reports as changed.  Here no name in the tree has
a null character and the working directory exists.  What stops a run comes before the first
document, and then the tree stays as it is.  Any other run puts each document of the search in one
place of its report, fails on those that cannot be read, gives new bytes to the changed ones alone,
and to none when it only checks or shows; its exit code tells failed documents first, then a failed
check. -/
theorem run_settles_documents
    (session : Session) (request : Request) (hstdin : request.stdin = false)
    (hnull : session.tree.NullFree) (hcwd : session.tree.Reaches session.cwd) :
    ((run session request).Stopped ↔ ∃ fault, prepared session request = .error fault) ∧
    ((run session request).Stopped → (run session request).tree = session.tree) ∧
    (¬ (run session request).Stopped → ∃ project range unit docs tally,
      (openProject session request.project).2 = .ok project ∧
      rangeOf request = .ok range ∧
      project.settings.unit session.memory = .ok unit ∧
      Selection.documents session.tree session.cwd project.settings.extensions
        project.settings.excluded (targets project request.paths) = .ok docs ∧
      (perform session request).result = .ok (.files docs.length tally) ∧
      Settles session.tree session.cwd { unit, range, write := !(request.check || request.diff) }
        docs tally (run session request).tree ∧
      (run session request).output =
        (if request.json then [.value (Result.json request (.files docs.length tally))]
        else Result.output request (.files docs.length tally)) ∧
      (run session request).exit = .ok
        (if tally.failed ≠ [] then badDocument
        else if request.check = true ∧ tally.changed ≠ [] then checkFailed
        else success)) := by
  cases hprepared : prepared session request with
  | error fault =>
      have hfault : ∀ cause, fault ≠ .document cause := by
        rintro cause rfl
        exact sparesDocuments_prepared session request cause hprepared
      obtain ⟨htree, hresult⟩ := perform_of_prepared_error hstdin hprepared
      obtain ⟨hstopped, hkept⟩ := run_of_error hfault htree hresult
      exact ⟨iff_of_true hstopped ⟨fault, rfl⟩, fun _ => hkept, fun hgoes => absurd hstopped hgoes⟩
  | ok chosen =>
      obtain ⟨docs, how⟩ := chosen
      obtain ⟨project, hproject, hchosen⟩ := exists_of_bind_eq_ok hprepared
      obtain ⟨range, hrange, hchosen⟩ := exists_of_bind_eq_ok hchosen
      obtain ⟨hdocs, unit, hunit, rfl⟩ := exists_of_chosen hchosen
      have hnodup := Selection.nodup_documents hdocs
      obtain ⟨last, haccounts, htree, hresult⟩ := exists_accounts hstdin hprepared hnodup
        fun path hpath => Selection.isFound_of_mem_documents hnull hcwd hdocs hpath
      obtain ⟨hgoes, hsame, hexit, houtput⟩ := run_of_ok hresult
      obtain ⟨-, hreturn⟩ := Settings.isIndent_of_unit hunit
      refine ⟨iff_of_false hgoes nofun, fun hstopped => absurd hstopped hgoes, fun _ => ?_⟩
      refine ⟨project, range, unit, docs, last.tally, hproject, hrange, hunit, hdocs, hresult, ?_,
        houtput, ?_⟩
      · rw [hsame, htree]
        exact haccounts.settles hnodup hreturn
      · rw [hexit, exit_files]

/-- A directory with a list that is not laid out, a file that is no text, and a line that needs no
layout but ends in a carriage return. -/
def site : Session where
  tree := {
    entries := [
      (["site"], .directory),
      (["site", "a.fubelt"], .file (Text.toUtf8 "<ul>\n<li>x</li>\n</ul>\n".toList)),
      (["site", "b.fubelt"], .file (ByteArray.mk #[0xff])),
      (["site", "c.fubelt"], .file (Text.toUtf8 "<br/>\r\n".toList))] }
  cwd := ["site"]

/-- The document of the directory with a name. -/
def sitePage (name : String) : Path :=
  Project.pathOf ["site", name]

/-- A list with an item out of place on a page of the site, and the list laid out. -/
def listOn (name : String) : Document.Comparison where
  path := sitePage name
  before := "<ul>\n<li>x</li>\n</ul>\n".toList
  formatted := "<ul>\n\t<li>x</li>\n</ul>\n".toList

theorem openProject_site :
    (openProject site {}).2 = .ok { root := Project.pathOf ["site"], settings := {} } := by
  decide +kernel

theorem documents_site :
    Selection.documents site.tree site.cwd [".fubelt"] []
        (targets { root := Project.pathOf ["site"], settings := {} } []) =
      .ok (["a.fubelt", "b.fubelt", "c.fubelt"].map sitePage) := by
  have hfound : (targets { root := Project.pathOf ["site"], settings := {} } []).mapM
      (Selection.documentsAt site.tree site.cwd [".fubelt"] []) =
        .ok [["a.fubelt", "b.fubelt", "c.fubelt"].map fun name => ["site", name]] := by
    decide +kernel
  have hsorted : Path.sorted (["a.fubelt", "b.fubelt", "c.fubelt"].map sitePage) =
      ["a.fubelt", "b.fubelt", "c.fubelt"].map sitePage :=
    List.mergeSort_of_pairwise (by decide +kernel)
  rw [Selection.documents, hfound]
  exact congrArg Except.ok hsorted

theorem run_settles_site :
    site.tree.NullFree ∧ site.tree.Reaches site.cwd ∧ ¬ (run site {}).Stopped ∧
      (run site {}).exit = .ok badDocument ∧
      (run site {}).tree.bytes? ["site", "a.fubelt"] =
        some (Text.toUtf8 "<ul>\n\t<li>x</li>\n</ul>\n".toList) ∧
      (run site {}).tree.bytes? ["site", "c.fubelt"] =
        some (Text.toUtf8 "<br/>\r\n".toList) := by
  have hnull : site.tree.NullFree := by simp [FileTree.NullFree, site]
  have hcwd : site.tree.Reaches site.cwd := by
    rw [FileTree.Reaches]
    decide +kernel
  obtain ⟨hstopped, -, hsettles⟩ := run_settles_documents site {} rfl hnull hcwd
  have hgoes : ¬ (run site {}).Stopped := by
    rw [hstopped]
    rintro ⟨fault, hfault⟩
    rw [prepared, openProject_site] at hfault
    have hchosen : chosen site {} { root := Project.pathOf ["site"], settings := {} } none =
        .error fault := hfault
    rw [chosen, documents_site] at hchosen
    cases hchosen
  obtain ⟨project, range, unit, docs, tally, hproject, hrange, hunit, hdocs, -, hsettled, -,
    hexit⟩ := hsettles hgoes
  rw [openProject_site] at hproject
  cases hproject
  cases hrange
  cases hunit
  rw [documents_site] at hdocs
  cases hdocs
  have hfailed : sitePage "b.fubelt" ∈ tally.failed.map Prod.fst := by
    rw [hsettled.failed_iff _ (by simp)]
    exact ⟨.notText (sitePage "b.fubelt"), by decide +kernel⟩
  have hlist : Document.read site.tree site.cwd (sitePage "a.fubelt") =
      .ok "<ul>\n<li>x</li>\n</ul>\n".toList := by decide +kernel
  have hchanged : sitePage "a.fubelt" ∈ tally.changed.map (·.path) := by
    rw [hsettled.changed_iff _ (by simp)]
    exact ⟨_, hlist, by decide +kernel⟩
  have hline : Document.read site.tree site.cwd (sitePage "c.fubelt") = .ok "<br/>\n".toList := by
    decide +kernel
  have hunchanged : sitePage "c.fubelt" ∉ tally.changed.map (·.path) := by
    rw [hsettled.changed_iff _ (by simp)]
    rintro ⟨text, hread, hne⟩
    rw [hline] at hread
    cases hread
    exact hne (by decide +kernel)
  refine ⟨hnull, hcwd, hgoes, ?_, ?_, ?_⟩
  · rw [hexit, if_pos]
    intro hnil
    rw [hnil] at hfailed
    cases hfailed
  · obtain ⟨text, hread, hbytes⟩ := hsettled.bytes rfl _ hchanged
    rw [hlist] at hread
    cases hread
    exact hbytes.trans (congrArg (some ∘ Text.toUtf8) (by decide +kernel))
  · exact not_not.mp fun hne => hunchanged ((hsettled.written_iff rfl _).mp hne)

end Format
end Command
end Reindent
