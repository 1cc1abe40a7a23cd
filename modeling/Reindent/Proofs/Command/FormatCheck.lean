import Reindent.Proofs.Command.FormatEffect
import Reindent.Proofs.Command.Reopening
import Reindent.Proofs.Layout.Idempotence
import Reindent.Proofs.Selection.Membership

/-!
# Checking before and after formatting

What a run reports can be told from the tree it starts with, document by document, and writing the
documents back plays no part in it.  So a check reports what the same run without the check goes on
to write.

A run that writes keeps the shape of the tree and the settings file, so a second run finds the same
documents.  Each of them reads as its formatted text, and formatting that text changes nothing, if
the document is one that a second layout leaves alone.  Then a check finds every document unchanged.
-/

namespace Reindent
namespace Command
namespace Format

/-! ## The tally of a run -/

/-- The tally with one more document, by what the document reads as. -/
def Tally.entered (how : Document.Formatting) (tally : Tally) (path : Path)
    (read : Except Fault Text) : Tally :=
  match read with
  | .error fault => { tally with failed := tally.failed.record path fault.message }
  | .ok text =>
    if Assist.formatText how.unit how.range text = text then
      { tally with unchanged := tally.unchanged ++ [path] }
    else { tally with changed := tally.changed ++ [Document.compared how path text] }

/-- The tally of documents, by what they read as in one tree. -/
def tallyFrom (tree : FileTree) (cwd : Location) (how : Document.Formatting) :
    Tally → List Path → Tally
  | tally, [] => tally
  | tally, path :: rest =>
    tallyFrom tree cwd how (tally.entered how path (Document.read tree cwd path)) rest

/-- Whether documents are written back plays no part in the tally. -/
theorem tallyFrom_write
    (tree : FileTree) (cwd : Location) (how : Document.Formatting) (write : Bool) (tally : Tally)
    (docs : List Path) :
    tallyFrom tree cwd { how with write } tally docs = tallyFrom tree cwd how tally docs := by
  induction docs generalizing tally with
  | nil => rfl
  | cons path rest ih => exact ih _

theorem tallyFrom_congr
    {tree later : FileTree} {cwd : Location} {how : Document.Formatting} {docs : List Path}
    (h : ∀ path ∈ docs, Document.read later cwd path = Document.read tree cwd path)
    (tally : Tally) :
    tallyFrom later cwd how tally docs = tallyFrom tree cwd how tally docs := by
  induction docs generalizing tally with
  | nil => rfl
  | cons path rest ih =>
      obtain ⟨hpath, hrest⟩ := List.forall_mem_cons.mp h
      rw [tallyFrom, tallyFrom, hpath, ih hrest]

/-- Documents that formatting does not change are all counted as unchanged. -/
theorem tallyFrom_of_unchanged
    {tree : FileTree} {cwd : Location} {how : Document.Formatting} {docs : List Path}
    (h : ∀ path ∈ docs, ∃ text, Document.read tree cwd path = .ok text ∧
      Assist.formatText how.unit how.range text = text)
    (tally : Tally) :
    tallyFrom tree cwd how tally docs = { tally with unchanged := tally.unchanged ++ docs } := by
  induction docs generalizing tally with
  | nil => rw [tallyFrom, List.append_nil]
  | cons path rest ih =>
      obtain ⟨⟨text, hread, hsame⟩, hrest⟩ := List.forall_mem_cons.mp h
      have hentered : tally.entered how path (Document.read tree cwd path) =
          { tally with unchanged := tally.unchanged ++ [path] } := by
        rw [hread, Tally.entered]
        exact if_pos hsame
      rw [tallyFrom, hentered, ih hrest]
      simp only [List.append_assoc, List.cons_append, List.nil_append]

theorem tally_of_document
    {p next : Progress} {path : Path} (h : Document.IsFound p.tree path) {cwd : Location}
    {how : Document.Formatting} (hnext : document cwd how p path = .ok next) :
    next.tally = p.tally.entered how path (Document.read p.tree cwd path) := by
  rcases document_cases h cwd how with
    ⟨cause, hread, hdocument⟩ | ⟨text, hread, hsame, hdocument⟩ | ⟨text, hread, hne, hdocument⟩
  · rw [← Except.ok.inj (hdocument.symm.trans hnext), hread]
    rfl
  · rw [← Except.ok.inj (hdocument.symm.trans hnext), hread, Tally.entered, if_pos hsame]
  · rw [← Except.ok.inj (hdocument.symm.trans hnext), hread, Tally.entered, if_neg hne]

namespace Accounts

variable {tree : FileTree} {cwd : Location} {how : Document.Formatting} {done docs : List Path}
  {p : Progress}

/-- What a run adds to its tally is told by the tree that it started with. -/
theorem tally_documents
    {rest : List Path} (h : Accounts tree cwd how done p)
    (hfound : ∀ path ∈ rest, Document.IsFound tree path) (hnodup : (done ++ rest).Nodup) :
    (documents cwd how p rest).1.tally = tallyFrom tree cwd how p.tally rest := by
  induction rest generalizing done p with
  | nil => rfl
  | cons path rest ih =>
      obtain ⟨hpath, hrest⟩ := List.forall_mem_cons.mp hfound
      have hnew : path ∉ done := by
        intro hmem
        exact (List.disjoint_of_nodup_append hnodup) hmem List.mem_cons_self
      obtain ⟨next, hnext, haccounts⟩ := h.step hpath hnew
      have htally := tally_of_document (h.still_found path hpath) hnext
      rw [h.read_eq_of_not_mem hpath hnew] at htally
      rw [List.append_cons] at hnodup
      rw [documents, hnext, tallyFrom, ← htally]
      exact ih haccounts hrest hnodup

/-! ## The tree after a run -/

/-- A run writes over files only. -/
theorem sameShape (h : Accounts tree cwd how docs p) :
    tree.SameShape p.tree := by
  intro location
  by_cases hchanged : how.write = true ∧ ∃ c ∈ p.tally.changed, c.path.names = location
  · obtain ⟨hwrite, c, hc, rfl⟩ := hchanged
    obtain ⟨bytes, hbytes⟩ := (h.done_found _ (h.mem_done_of_changed hc)).exists_file
    rw [h.written hwrite c hc, hbytes]
    rfl
  · rw [h.kept location]
    intro hwrite c hc hnames
    exact hchanged ⟨hwrite, c, hc, hnames⟩

theorem node?_of_not_mem
    (h : Accounts tree cwd how docs p) {location : Location}
    (hlocation : Project.pathOf location ∉ docs) :
    p.tree.node? location = tree.node? location := by
  apply h.kept
  intro _ c hc hnames
  apply hlocation
  have hdone := h.mem_done_of_changed hc
  have hpath : c.path = Project.pathOf location := by
    rw [Project.pathOf, ← hnames, ← (h.done_found _ hdone).root_eq]
  rwa [← hpath]

/-- New bytes are at the changed documents, and nowhere if nothing is written back. -/
theorem bytes?_ne_iff
    (h : Accounts tree cwd how docs p) (hreturn : '\r' ∉ how.unit) (location : Location) :
    p.tree.bytes? location ≠ tree.bytes? location ↔
      how.write = true ∧ Project.pathOf location ∈ p.tally.changed.map (·.path) := by
  cases hwrite : how.write with
  | true =>
      rw [h.written_iff hwrite hreturn]
      simp
  | false =>
      have hkept := h.kept location (by simp [hwrite])
      simp [FileTree.bytes?, hkept]

/-- A document that formatting does not change stays as it is. -/
theorem read_of_unchanged
    (h : Accounts tree cwd how docs p) {path : Path} (hpath : path ∈ docs) {text : Text}
    (hread : Document.read tree cwd path = .ok text)
    (hsame : Assist.formatText how.unit how.range text = text) :
    Document.read p.tree cwd path = .ok text := by
  have hfound := h.done_found path hpath
  have hnode : p.tree.node? path.names = tree.node? path.names := by
    apply h.kept
    intro _ c hc hnames
    have hc' := h.done_found _ (h.mem_done_of_changed hc)
    obtain ⟨other, hother, hne, -⟩ := h.changed c hc
    rw [hc'.eq_of_names_eq hfound hnames, hread, Except.ok.injEq] at hother
    subst hother
    exact hne hsame
  rw [hfound.read_congr (h.still_found path hfound) cwd hnode, hread]

/-- A document that was written back reads as its formatted text, if that text starts with no
mark. -/
theorem read_of_changed
    (h : Accounts tree cwd how docs p) (hwrite : how.write = true) (hrange : how.range = none)
    (hreturn : '\r' ∉ how.unit) {path : Path} (hpath : path ∈ docs) {text : Text}
    (hread : Document.read tree cwd path = .ok text)
    (hchanged : Layout.format how.unit text ≠ text)
    (hmark : ((Layout.trimmedLines text).headD []).head? ≠ some Text.byteOrderMark) :
    Document.read p.tree cwd path = .ok (Layout.format how.unit text) := by
  have hfound := h.done_found path hpath
  obtain ⟨hshort, bytes, -, hdecoded⟩ := hfound.exists_bytes_of_read hread
  have hformatted : Assist.formatText how.unit how.range text = Layout.format how.unit text := by
    rw [hrange]
    rfl
  have hmem : path ∈ p.tally.changed.map (·.path) := by
    rw [h.changed_iff hpath]
    exact ⟨text, hread, hformatted ▸ hchanged⟩
  obtain ⟨c, hc, rfl⟩ := List.mem_map.mp hmem
  obtain ⟨other, hother, -, hcompared⟩ := h.changed c hc
  obtain rfl : text = other := Except.ok.inj (hread.symm.trans hother)
  have hwritten := h.written hwrite c hc
  rw [congrArg Document.Comparison.formatted hcompared] at hwritten
  rw [(h.still_found _ hfound).read_eq cwd hwritten, if_neg (Nat.not_lt.mpr hshort)]
  have hback := Assist.ofDocument?_toUtf8_format hreturn
    (Text.return_not_mem_of_ofDocument? hdecoded) hmark
  simp only [Document.compared, hformatted, hback]

/-- After a run that writes, a document that a second layout leaves alone is not changed again. -/
theorem exists_read_fixed
    (h : Accounts tree cwd how docs p) (hwrite : how.write = true) (hrange : how.range = none)
    (hunit : Text.IsIndent how.unit) (hreturn : '\r' ∉ how.unit)
    {path : Path} (hpath : path ∈ docs) {text : Text}
    (hread : Document.read tree cwd path = .ok text)
    (hmixed : Layout.Unmixed {} (Layout.trimmedLines text))
    (hmark : ((Layout.trimmedLines text).headD []).head? ≠ some Text.byteOrderMark) :
    ∃ text, Document.read p.tree cwd path = .ok text ∧
      Assist.formatText how.unit how.range text = text := by
  by_cases hsame : Layout.format how.unit text = text
  · have hformat : Assist.formatText how.unit how.range text = text := by
      rw [hrange]
      exact hsame
    exact ⟨text, h.read_of_unchanged hpath hread hformat, hformat⟩
  · refine ⟨_, h.read_of_changed hwrite hrange hreturn hpath hread hsame hmark, ?_⟩
    have hrun := Layout.run_flow hunit Layout.State.tidy_initial Layout.State.wellHeld_initial
      (fun _ hline => Layout.isTrimmed_of_mem_trimmedLines hline) hmixed
    rw [hrange]
    show Layout.format how.unit (Layout.format how.unit text) = Layout.format how.unit text
    rw [Layout.format, Layout.trimmedLines_format hunit hmark]
    exact congrArg Text.unlines hrun

end Accounts

/-! ## Preparing two runs -/

theorem exists_of_prepared
    {session : Session} {request : Request} {docs : List Path} {how : Document.Formatting}
    (h : prepared session request = .ok (docs, how)) :
    ∃ project range unit, (openProject session request.project).2 = .ok project ∧
      rangeOf request = .ok range ∧ project.settings.unit session.memory = .ok unit ∧
      Selection.documents session.tree session.cwd project.settings.extensions
        project.settings.excluded (targets project request.paths) = .ok docs ∧
      how = { unit, range, write := writes request } := by
  obtain ⟨project, hproject, h⟩ := exists_of_bind_eq_ok h
  obtain ⟨range, hrange, h⟩ := exists_of_bind_eq_ok h
  obtain ⟨hdocs, unit, hunit, hhow⟩ := exists_of_chosen h
  exact ⟨project, range, unit, hproject, hrange, hunit, hdocs, hhow⟩

/-- A check prepares as the same run without the check does. -/
theorem prepared_check (session : Session) (request : Request) (check : Bool) :
    prepared session { request with check } =
      (prepared session request).map fun chosen =>
        (chosen.1, { chosen.2 with write := writes { request with check } }) := by
  rw [prepared, prepared]
  cases (openProject session request.project).2 with
  | error fault => rfl
  | ok project =>
      change (rangeOf request >>= chosen session { request with check } project) =
        (rangeOf request >>= chosen session request project).map _
      cases rangeOf request with
      | error fault => rfl
      | ok range =>
          change chosen session { request with check } project range =
            (chosen session request project range).map _
          rw [chosen, chosen]
          cases Selection.documents session.tree session.cwd project.settings.extensions
              project.settings.excluded (targets project request.paths) with
          | error fault => rfl
          | ok found =>
              by_cases hlines : (range.isSome && decide (found.length ≠ 1)) = true
              · simp only [bind, Except.bind, hlines, if_true]
                rfl
              · simp only [bind, Except.bind, hlines]
                cases project.settings.unit session.memory <;> rfl

/-- A run prepares as before in a tree of the same shape with the same settings file. -/
theorem prepared_of_sameShape
    {session : Session} {later : FileTree} (hshape : session.tree.SameShape later)
    (hcwd : session.tree.Reaches session.cwd) {request : Request}
    (hsettings : ∀ location ∈ settingsLocation? session request.project,
      later.node? location = session.tree.node? location)
    {docs : List Path} {how : Document.Formatting}
    (h : prepared session request = .ok (docs, how)) :
    prepared { session with tree := later } request = .ok (docs, how) := by
  obtain ⟨project, hproject, h⟩ := exists_of_bind_eq_ok h
  obtain ⟨range, hrange, h⟩ := exists_of_bind_eq_ok h
  obtain ⟨hdocs, -⟩ := exists_of_chosen h
  have hlater := Selection.documents_of_sameShape hshape hcwd hdocs
  rw [chosen, hdocs] at h
  rw [prepared, openProject_of_sameShape hshape hsettings, hproject, hrange]
  change chosen { session with tree := later } request project range = .ok (docs, how)
  rw [chosen, hlater]
  exact h

/-! ## A check and the run -/

/-- A run ends with a tally of so many documents: it shows that tally and exits by it. -/
structure Reports (session : Session) (request : Request) (count : ℕ) (tally : Tally) : Prop where
  goes : ¬ (run session request).Stopped
  result_eq : (perform session request).result = .ok (.files count tally)
  output_eq : (run session request).output =
    if request.json then [.value (Result.json request (.files count tally))]
    else Result.output request (.files count tally)
  exit_eq : (run session request).exit = .ok
    (if tally.failed ≠ [] then badDocument
    else if request.check = true ∧ tally.changed ≠ [] then checkFailed
    else success)

theorem reports_of_result
    {session : Session} {request : Request} {count : ℕ} {tally : Tally}
    (h : (perform session request).result = .ok (.files count tally)) :
    Reports session request count tally := by
  obtain ⟨hgoes, -, hexit, houtput⟩ := run_of_ok h
  refine ⟨hgoes, h, houtput, ?_⟩
  rw [hexit, exit_files]

/-- A run that is prepared reports the tally of its documents. -/
theorem exists_accounts_reports
    {session : Session} {request : Request} {docs : List Path} {how : Document.Formatting}
    (hprepared : prepared session request = .ok (docs, how)) (hstdin : request.stdin = false)
    (hnodup : docs.Nodup) (hfound : ∀ path ∈ docs, Document.IsFound session.tree path) :
    ∃ last, Accounts session.tree session.cwd how docs last ∧
      (run session request).tree = last.tree ∧
      last.tally = tallyFrom session.tree session.cwd how {} docs ∧
      Reports session request docs.length (tallyFrom session.tree session.cwd how {} docs) := by
  have hinitial := Accounts.initial session.tree session.cwd how
  obtain ⟨last, hrun, haccounts⟩ := hinitial.run hfound hnodup
  have htally := hinitial.tally_documents hfound hnodup
  rw [hrun] at htally
  obtain ⟨htree, hresult⟩ := perform_of_prepared_ok hstdin hprepared hrun
  obtain ⟨-, hsame, -⟩ := run_of_ok hresult
  refine ⟨last, haccounts, hsame.trans htree, htally, ?_⟩
  rw [← htally]
  exact reports_of_result hresult

theorem stopped_of_prepared_error
    {session : Session} {request : Request} {fault : Fault}
    (h : prepared session request = .error fault) (hstdin : request.stdin = false) :
    (run session request).Stopped := by
  have hfault : ∀ cause, fault ≠ .document cause := by
    rintro cause rfl
    exact sparesDocuments_prepared session request cause h
  obtain ⟨htree, hresult⟩ := perform_of_prepared_error hstdin h
  exact (run_of_error hfault htree hresult).1

/-- After a run that writes, a check finds every document unchanged. -/
theorem Accounts.reports_check
    {session : Session} {request : Request} {docs : List Path} {how : Document.Formatting}
    (hprepared : prepared session request = .ok (docs, how)) (hstdin : request.stdin = false)
    {last : Progress} (h : Accounts session.tree session.cwd { how with write := true } docs last)
    (hcwd : session.tree.Reaches session.cwd) (hnodup : docs.Nodup) (hrange : how.range = none)
    (hunit : Text.IsIndent how.unit) (hreturn : '\r' ∉ how.unit)
    (hsettings : ∀ location ∈ settingsLocation? session request.project,
      Project.pathOf location ∉ docs)
    (hdocs : ∀ path ∈ docs, ∃ text, Document.read session.tree session.cwd path = .ok text ∧
      Layout.Unmixed {} (Layout.trimmedLines text) ∧
      ((Layout.trimmedLines text).headD []).head? ≠ some Text.byteOrderMark) :
    Reports { session with tree := last.tree } request docs.length { unchanged := docs } := by
  have hagain := prepared_of_sameShape h.sameShape hcwd
    (fun location hlocation => h.node?_of_not_mem (hsettings location hlocation)) hprepared
  obtain ⟨-, -, -, -, hreports⟩ := exists_accounts_reports hagain hstdin hnodup
    fun path hpath => h.still_found path (h.done_found path hpath)
  have hfixed : ∀ path ∈ docs, ∃ text, Document.read last.tree session.cwd path = .ok text ∧
      Assist.formatText how.unit how.range text = text := by
    intro path hpath
    obtain ⟨text, hread, hmixed, hmark⟩ := hdocs path hpath
    exact h.exists_read_fixed rfl hrange hunit hreturn hpath hread hmixed hmark
  rw [tallyFrom_of_unchanged hfixed] at hreports
  exact hreports

/-- A check foretells the run, and the run makes the check pass.  Here no name in the tree has a
null character and the working directory exists.  A run stops if the check does.  If not, both
report the same documents as changed, as unchanged and as failed, and the run gives new bytes to
the changed ones alone, and to none when it only shows them.  After a run that is not one for show,
a second check finds every document unchanged, as long as the settings file is no document and
every document can be read, meets no marker of a block inside the other and has a first line that
starts with no mark. -/
theorem run_check_agrees_with_run
    (session : Session) (request : Request) (hstdin : request.stdin = false)
    (hlines : request.lines = .absent)
    (hnull : session.tree.NullFree) (hcwd : session.tree.Reaches session.cwd) :
    ((run session { request with check := true }).Stopped ↔
      (run session { request with check := false }).Stopped) ∧
    (¬ (run session { request with check := false }).Stopped → ∃ project docs tally,
      (openProject session request.project).2 = .ok project ∧
      Selection.documents session.tree session.cwd project.settings.extensions
        project.settings.excluded (targets project request.paths) = .ok docs ∧
      Reports session { request with check := true } docs.length tally ∧
      Reports session { request with check := false } docs.length tally ∧
      (∀ location,
        (run session { request with check := false }).tree.bytes? location ≠
            session.tree.bytes? location ↔
          request.diff = false ∧ Project.pathOf location ∈ tally.changed.map (·.path)) ∧
      (request.diff = false →
        (∀ location ∈ settingsLocation? session request.project,
          Project.pathOf location ∉ docs) →
        (∀ path ∈ docs, ∃ text, Document.read session.tree session.cwd path = .ok text ∧
          Layout.Unmixed {} (Layout.trimmedLines text) ∧
          ((Layout.trimmedLines text).headD []).head? ≠ some Text.byteOrderMark) →
        Reports { session with tree := (run session { request with check := false }).tree }
            { request with check := true } docs.length { unchanged := docs } ∧
          (run { session with tree := (run session { request with check := false }).tree }
            { request with check := true }).exit = .ok success)) := by
  cases hprepared : prepared session request with
  | error fault =>
      have hstopped : ∀ check, (run session { request with check }).Stopped := by
        intro check
        have hfails : prepared session { request with check } = .error fault := by
          rw [prepared_check, hprepared]
          rfl
        exact stopped_of_prepared_error hfails hstdin
      exact ⟨iff_of_true (hstopped true) (hstopped false),
        fun hgoes => absurd (hstopped false) hgoes⟩
  | ok chosen =>
      obtain ⟨docs, how⟩ := chosen
      obtain ⟨project, range, unit, hproject, hrange, hunit, hdocs, rfl⟩ :=
        exists_of_prepared hprepared
      obtain ⟨hindent, hreturn⟩ := Settings.isIndent_of_unit hunit
      obtain rfl : none = range := by
        rw [rangeOf, hlines] at hrange
        exact Except.ok.inj hrange
      have hboth : ∀ check, prepared session { request with check } =
          .ok (docs, { unit, write := !(check || request.diff) }) := by
        intro check
        rw [prepared_check, hprepared]
        rfl
      have hnodup := Selection.nodup_documents hdocs
      have hfound : ∀ path ∈ docs, Document.IsFound session.tree path :=
        fun path hpath => Selection.isFound_of_mem_documents hnull hcwd hdocs hpath
      have htallies : ∀ write, tallyFrom session.tree session.cwd { unit, write } {} docs =
          tallyFrom session.tree session.cwd { unit } {} docs :=
        fun write => tallyFrom_write session.tree session.cwd { unit } write {} docs
      obtain ⟨-, -, -, -, hcheck⟩ := exists_accounts_reports (hboth true) hstdin hnodup hfound
      obtain ⟨last, haccounts, htree, htally, hrun⟩ :=
        exists_accounts_reports (hboth false) hstdin hnodup hfound
      rw [htallies] at hcheck hrun htally
      refine ⟨iff_of_false hcheck.goes hrun.goes, fun _ => ?_⟩
      refine ⟨project, docs, _, hproject, hdocs, hcheck, hrun, ?_, ?_⟩
      · intro location
        rw [htree, haccounts.bytes?_ne_iff hreturn, htally]
        simp
      · intro hdiff hsettings hsteady
        rw [hdiff] at haccounts
        have hagain := haccounts.reports_check (hboth true) hstdin hcwd hnodup rfl hindent hreturn
          hsettings hsteady
        rw [htree]
        exact ⟨hagain, hagain.exit_eq⟩

/-- A directory with two lists that are not laid out: one starts with a mark and has lines that end
in a carriage return and a line feed, the other has carriage returns alone. -/
def mixedEnds : Session where
  tree := {
    entries := [
      (["site"], .directory),
      (["site", "a.fubelt"],
        .file (Text.toUtf8 "\uFEFF<ul>\r\n<li>x</li>\r\n</ul>\r\n".toList)),
      (["site", "b.fubelt"], .file (Text.toUtf8 "<ul>\r<li>y</li>\r</ul>".toList))] }
  cwd := ["site"]

theorem nullFree_mixedEnds :
    mixedEnds.tree.NullFree := by
  simp [FileTree.NullFree, mixedEnds]

theorem reaches_mixedEnds :
    mixedEnds.tree.Reaches mixedEnds.cwd := by
  rw [FileTree.Reaches]
  decide +kernel

theorem openProject_mixedEnds :
    (openProject mixedEnds {}).2 = .ok { root := Project.pathOf ["site"], settings := {} } := by
  decide +kernel

theorem documents_mixedEnds :
    Selection.documents mixedEnds.tree mixedEnds.cwd [".fubelt"] []
        (targets { root := Project.pathOf ["site"], settings := {} } []) =
      .ok (["a.fubelt", "b.fubelt"].map sitePage) := by
  have hfound : (targets { root := Project.pathOf ["site"], settings := {} } []).mapM
      (Selection.documentsAt mixedEnds.tree mixedEnds.cwd [".fubelt"] []) =
        .ok [["a.fubelt", "b.fubelt"].map fun name => ["site", name]] := by
    decide +kernel
  have hsorted : Path.sorted (["a.fubelt", "b.fubelt"].map sitePage) =
      ["a.fubelt", "b.fubelt"].map sitePage :=
    List.mergeSort_of_pairwise (by decide +kernel)
  rw [Selection.documents, hfound]
  exact congrArg Except.ok hsorted

theorem prepared_mixedEnds (check diff : Bool) :
    prepared mixedEnds { check, diff } =
      .ok (["a.fubelt", "b.fubelt"].map sitePage,
        { unit := Layout.tab, write := !(check || diff) }) := by
  rw [prepared, openProject_mixedEnds]
  change chosen mixedEnds { check, diff } { root := Project.pathOf ["site"], settings := {} } none
    = _
  rw [chosen, documents_mixedEnds]
  rfl

theorem isFound_mixedEnds :
    ∀ path ∈ ["a.fubelt", "b.fubelt"].map sitePage, Document.IsFound mixedEnds.tree path := by
  intro path hpath
  exact Selection.isFound_of_mem_documents nullFree_mixedEnds reaches_mixedEnds
    documents_mixedEnds hpath

theorem run_check_mixedEnds :
    mixedEnds.tree.NullFree ∧ mixedEnds.tree.Reaches mixedEnds.cwd ∧
      (run mixedEnds { check := true }).exit = .ok checkFailed ∧
      (run mixedEnds {}).tree.bytes? ["site", "b.fubelt"] ≠
        mixedEnds.tree.bytes? ["site", "b.fubelt"] ∧
      (run { mixedEnds with tree := (run mixedEnds {}).tree } { check := true }).exit =
        .ok success := by
  obtain ⟨-, hagrees⟩ :=
    run_check_agrees_with_run mixedEnds {} rfl rfl nullFree_mixedEnds reaches_mixedEnds
  obtain ⟨-, -, -, -, hreports⟩ := exists_accounts_reports (prepared_mixedEnds false false) rfl
    (by decide +kernel) isFound_mixedEnds
  obtain ⟨project, docs, tally, hproject, hdocs, hcheck, hrun, hbytes, hagain⟩ :=
    hagrees hreports.goes
  rw [openProject_mixedEnds] at hproject
  cases hproject
  rw [documents_mixedEnds] at hdocs
  cases hdocs
  have htally := Except.ok.inj (hrun.result_eq.symm.trans hreports.result_eq)
  rw [Result.files.injEq] at htally
  obtain ⟨-, rfl⟩ := htally
  refine ⟨nullFree_mixedEnds, reaches_mixedEnds, ?_, ?_, ?_⟩
  · rw [hcheck.exit_eq]
    decide +kernel
  · rw [hbytes]
    decide +kernel
  · refine (hagain rfl ?_ ?_).2
    · decide +kernel
    · simp only [List.map_cons, List.map_nil, List.forall_mem_cons]
      refine ⟨⟨"<ul>\n<li>x</li>\n</ul>\n".toList, ?_⟩, ⟨"<ul>\n<li>y</li>\n</ul>".toList, ?_⟩,
        nofun⟩
      · decide +kernel
      · decide +kernel

/-- Showing the changes of a run keeps it from writing: no bytes follow the changes that the check
foretells, and the check does not pass after the run. -/
theorem run_diff_mixedEnds :
    (∃ tally, Reports mixedEnds { check := true, diff := true } 2 tally ∧
      tally.changed.map (·.path) = ["a.fubelt", "b.fubelt"].map sitePage) ∧
    (∀ location,
      (run mixedEnds { diff := true }).tree.bytes? location = mixedEnds.tree.bytes? location) ∧
    (run { mixedEnds with tree := (run mixedEnds { diff := true }).tree }
      { check := true, diff := true }).exit = .ok checkFailed := by
  have hnodup : (["a.fubelt", "b.fubelt"].map sitePage).Nodup := by decide +kernel
  obtain ⟨-, -, -, -, hcheck⟩ := exists_accounts_reports (prepared_mixedEnds true true) rfl hnodup
    isFound_mixedEnds
  obtain ⟨last, haccounts, htree, -, -⟩ := exists_accounts_reports (prepared_mixedEnds false true)
    rfl hnodup isFound_mixedEnds
  have hkept : ∀ location, last.tree.node? location = mixedEnds.tree.node? location := by
    intro location
    exact haccounts.kept location nofun
  have hstill : ∀ path ∈ ["a.fubelt", "b.fubelt"].map sitePage,
      Document.IsFound last.tree path :=
    fun path hpath => haccounts.still_found path (isFound_mixedEnds path hpath)
  have hread : ∀ path ∈ ["a.fubelt", "b.fubelt"].map sitePage,
      Document.read last.tree mixedEnds.cwd path =
        Document.read mixedEnds.tree mixedEnds.cwd path :=
    fun path hpath => (isFound_mixedEnds path hpath).read_congr (hstill path hpath) _ (hkept _)
  have hlater := prepared_of_sameShape haccounts.sameShape reaches_mixedEnds
    (fun location _ => hkept location) (prepared_mixedEnds true true)
  obtain ⟨-, -, -, -, hagain⟩ := exists_accounts_reports hlater rfl hnodup hstill
  refine ⟨⟨_, hcheck, by decide +kernel⟩, ?_, ?_⟩
  · intro location
    rw [htree, FileTree.bytes?, FileTree.bytes?, hkept]
  · rw [htree, hagain.exit_eq, tallyFrom_congr hread]
    decide +kernel

end Format
end Command
end Reindent
