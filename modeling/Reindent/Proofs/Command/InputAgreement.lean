import Reindent.Proofs.Assist.Mark
import Reindent.Proofs.Command.FormatCheck

/-!
# Formatting the standard input and formatting a file

The format command takes a text from the standard input or from a file.  With the same bytes in both
places the two runs fail alike, before the text matters.  If they do not fail, they differ by the
byte-order mark alone, which the standard input keeps: this says exactly when the formatted texts,
the verdicts and the exit codes are the same.
-/

namespace Reindent
namespace Command

/-- How a failed command exits is told by the fault alone. -/
theorem exit_failed_eq
    (session other : Session) (json json' : Bool) (command command' : String)
    (notes notes' : List Note) (fault : Fault) :
    (failed session json command notes fault).exit =
      (failed other json' command' notes' fault).exit := by
  cases fault with
  | crash cause => rfl
  | document cause => cases json <;> cases json' <;> rfl
  | settings cause => cases json <;> cases json' <;> rfl
  | noSuchPath path => cases json <;> cases json' <;> rfl
  | missingPackage message => cases json <;> cases json' <;> rfl

namespace Format

/-- The request with the text taken from the standard input. -/
def Request.fromInput (request : Request) : Request :=
  { request with stdin := true }

/-- The request with the text taken from one file. -/
def Request.fromFile (request : Request) (file : String) : Request :=
  { request with stdin := false, paths := [file] }

/-! ## What comes before the text -/

section

variable {session : Session} (request : Request)

theorem result_of_openProject_error
    {fault : Fault} (h : (openProject session request.project).2 = .error fault) :
    (perform session request).result = .error fault :=
  (perform_of_openProject_error h).2

theorem result_of_rangeOf_error
    {project : Workspace} (hproject : (openProject session request.project).2 = .ok project)
    {fault : Fault} (h : rangeOf request = .error fault) :
    (perform session request).result = .error fault :=
  (perform_of_rangeOf_error hproject h).2

/-- With a project and a range, the standard input is all that is left. -/
theorem result_eq_performInput
    (hstdin : request.stdin = true) {project : Workspace} {range : Option Assist.LineRange}
    (hproject : (openProject session request.project).2 = .ok project)
    (hrange : rangeOf request = .ok range) :
    (perform session request).result = (performInput session project.settings range).2 := by
  rcases hopen : openProject session request.project with ⟨opening, opened⟩
  rw [hopen] at hproject
  cases hproject
  simp [perform, hopen, hrange, hstdin, bind, Except.bind, pure, Except.pure]

/-- Runs that fail by the same fault exit alike. -/
theorem exit_eq_of_error
    {request other : Request} {fault : Fault} (h : (perform session request).result = .error fault)
    (hother : (perform session other).result = .error fault) :
    (run session request).exit = (run session other).exit := by
  rw [run, run]
  simp only [h, hother]
  exact exit_failed_eq _ _ _ _ _ _ _ _ fault

end

theorem ordered_of_rangeOf
    {request : Request} {range : Option Assist.LineRange} (h : rangeOf request = .ok range) :
    Assist.Ordered range := by
  rintro lines ⟨⟩
  rw [rangeOf] at h
  split at h
  · cases h
  · cases h
  · split at h
    · next read hread =>
      rw [← Option.some.inj (Except.ok.inj h)]
      rw [Project.lineRange] at hread
      split at hread
      · cases hread
      · split at hread
        · cases hread
        · next hordered =>
          rw [← Except.ok.inj hread]
          simpa using hordered
    · cases h

/-! ## One file -/

section

variable {session : Session} {file : String} {location : Location}
  (hfile : session.tree.probe session.cwd (Path.ofString file) =
    .ok (some (location, .file session.input)))
include hfile

variable {request : Request} {project : Workspace} {range : Option Assist.LineRange}
  (hproject : (openProject session request.project).2 = .ok project)
  (hrange : rangeOf request = .ok range)

include hproject hrange

/-- A file is one document, so a range of lines is allowed, and only the unit can fail. -/
theorem prepared_fromFile :
    prepared session (request.fromFile file) = do
      let unit ← orCrash ((project.settings.unit session.memory).mapError .indentation)
      return ([Project.pathOf location], { unit, range, write := writes request }) := by
  have hopened : (openProject session (request.fromFile file).project).2 = .ok project := hproject
  have hread : rangeOf (request.fromFile file) = .ok range := hrange
  have htargets : targets project (request.fromFile file).paths = [Path.ofString file] := rfl
  rw [prepared, hopened, hread]
  change chosen session (request.fromFile file) project range = _
  rw [chosen, htargets, Selection.documents_of_file hfile]
  cases range <;> rfl

variable {input : Text} (hinput : Text.ofInput? session.input = some input)
  (hnull : session.tree.NullFree) (hcwd : session.tree.Reaches session.cwd)
  (hlength : (Project.pathOf location).text.utf8ByteSize ≤ FileTree.pathLimit)
include hnull hcwd

omit hproject hrange in
theorem isFound_fromFile : Document.IsFound session.tree (Project.pathOf location) :=
  Selection.isFound_of_mem_documents hnull hcwd (Selection.documents_of_file hfile [] []) (by simp)

include hlength hinput

omit hproject hrange in
theorem read_fromFile :
    Document.read session.tree session.cwd (Project.pathOf location) =
      .ok (Text.dropMark input) := by
  obtain ⟨-, -, hnode⟩ := FileTree.probe_eq_some_iff.mp hfile
  rw [(isFound_fromFile hfile hnull hcwd).read_eq session.cwd hnode,
    if_neg (Nat.not_lt.mpr hlength), Text.ofDocument?_of_ofInput? hinput]

/-- A file with the bytes of the standard input is compared with its formatted text. -/
theorem reports_fromFile {unit : Text} (hunit : project.settings.unit session.memory = .ok unit) :
    Reports session (request.fromFile file) 1
      (Tally.entered { unit, range } {} (Project.pathOf location) (.ok (Text.dropMark input))) := by
  have hprepared := prepared_fromFile hfile hproject hrange
  rw [hunit] at hprepared
  obtain ⟨-, -, -, -, hreports⟩ := exists_accounts_reports hprepared rfl (by simp)
    (by simpa using isFound_fromFile hfile hnull hcwd)
  rw [tallyFrom, tallyFrom, read_fromFile hfile hinput hnull hcwd hlength] at hreports
  exact hreports

end

/-! ## The two runs -/

theorem changed_compared_iff (how : Document.Formatting) (path : Path) (text : Text) :
    (Document.compared how path text).changed = true ↔
      Assist.formatText how.unit how.range text ≠ text :=
  decide_eq_true_iff

theorem entered_ok (how : Document.Formatting) (path : Path) (text : Text) :
    Tally.entered how {} path (.ok text) =
      if (Document.compared how path text).changed = true
      then { changed := [Document.compared how path text] } else { unchanged := [path] } := by
  rw [Tally.entered]
  by_cases hsame : Assist.formatText how.unit how.range text = text
  · simp [changed_compared_iff, hsame]
  · simp [changed_compared_iff, hsame]

theorem exit_of_text
    {session : Session} {request : Request} {before formatted : Text}
    (h : (perform session request).result = .ok (.text before formatted)) :
    (run session request).exit =
      .ok (if request.check = true ∧ formatted ≠ before then checkFailed else success) := by
  rw [run]
  simp only [h]
  simp [Result.exit, Result.checkFails]

theorem exit_of_compared
    {session : Session} {request : Request} {c : Document.Comparison}
    (h : Reports session request 1
      (if c.changed = true then { changed := [c] } else { unchanged := [c.path] })) :
    (run session request).exit =
      .ok (if request.check = true ∧ c.changed = true then checkFailed else success) := by
  rw [h.exit_eq]
  cases c.changed <;> simp

theorem exit_eq_iff (p q : Prop) [Decidable p] [Decidable q] :
    (if p then checkFailed else success) = (if q then checkFailed else success) ↔ (p ↔ q) := by
  by_cases hp : p <;> by_cases hq : q <;> simp [hp, hq, checkFailed, success]

/-- A run on the standard input and a run on a file with the same bytes fail alike or both come to
an end.  If they do, the run on the file compares its text, which has lost one mark.  The formatted
texts are the same exactly when there is no mark, or one mark and the formatting starts at the first
line.  The verdicts are the same exactly when there is no mark, or the formatting does not start at
the first line, or it changes the file; and so are the exit codes of a check.  The path of the file
is one that can be opened. -/
theorem fromInput_agrees_with_fromFile_iff
    (session : Session) (request : Request) {file : String} {location : Location} {input : Text}
    (hinput : Text.ofInput? session.input = some input)
    (hfile : session.tree.probe session.cwd (Path.ofString file) =
      .ok (some (location, .file session.input)))
    (hlength : (Project.pathOf location).text.utf8ByteSize ≤ FileTree.pathLimit)
    (hnull : session.tree.NullFree) (hcwd : session.tree.Reaches session.cwd) :
    (∃ fault, (perform session request.fromInput).result = .error fault ∧
      (perform session (request.fromFile file)).result = .error fault ∧
      (run session request.fromInput).exit = (run session (request.fromFile file)).exit) ∨
    ∃ project range unit, ∃ c : Document.Comparison,
      (openProject session request.project).2 = .ok project ∧ rangeOf request = .ok range ∧
      project.settings.unit session.memory = .ok unit ∧
      Document.compare session.tree session.cwd { unit, range } (Project.pathOf location) =
        .ok c ∧
      (perform session request.fromInput).result =
        .ok (.text input (Assist.formatText unit range input)) ∧
      (perform session (request.fromFile file)).result = .ok (.files 1
        (if c.changed = true then { changed := [c] } else { unchanged := [c.path] })) ∧
      (Assist.formatText unit range input = c.formatted ↔
        input.marks = 0 ∨ input.marks = 1 ∧ Assist.FromTop range) ∧
      ((Assist.formatText unit range input ≠ input ↔ c.changed = true) ↔
        input.marks = 0 ∨ ¬ Assist.FromTop range ∨ c.changed = true) ∧
      ((run session request.fromInput).exit = (run session (request.fromFile file)).exit ↔
        request.check = false ∨ input.marks = 0 ∨ ¬ Assist.FromTop range ∨ c.changed = true) := by
  have hfails : ∀ fault, (perform session request.fromInput).result = .error fault →
      (perform session (request.fromFile file)).result = .error fault →
      ∃ fault, (perform session request.fromInput).result = .error fault ∧
        (perform session (request.fromFile file)).result = .error fault ∧
        (run session request.fromInput).exit = (run session (request.fromFile file)).exit :=
    fun fault hpiped hfiled => ⟨fault, hpiped, hfiled, exit_eq_of_error hpiped hfiled⟩
  cases hproject : (openProject session request.project).2 with
  | error fault =>
      left
      exact hfails fault (result_of_openProject_error request.fromInput hproject)
        (result_of_openProject_error (request.fromFile file) hproject)
  | ok project =>
  cases hrange : rangeOf request with
  | error fault =>
      left
      exact hfails fault (result_of_rangeOf_error request.fromInput hproject hrange)
        (result_of_rangeOf_error (request.fromFile file) hproject hrange)
  | ok range =>
  have hpiped := result_eq_performInput request.fromInput rfl hproject hrange
  rw [performInput, hinput] at hpiped
  cases hunit : project.settings.unit session.memory with
  | error cause =>
      left
      have hprepared := prepared_fromFile hfile hproject hrange
      rw [hunit] at hprepared hpiped
      exact hfails _ hpiped (perform_of_prepared_error rfl hprepared).2
  | ok unit =>
      right
      rw [hunit] at hpiped
      have hordered := ordered_of_rangeOf hrange
      have hreports := reports_fromFile hfile hproject hrange hinput hnull hcwd hlength hunit
      rw [entered_ok] at hreports
      set c := Document.compared { unit, range } (Project.pathOf location) (Text.dropMark input)
        with hc
      have hverdicts : (Assist.formatText unit range input ≠ input ↔ c.changed = true) ↔
          input.marks = 0 ∨ ¬ Assist.FromTop range ∨ c.changed = true := by
        rw [hc, changed_compared_iff]
        exact Assist.changes_iff_changes_dropMark_iff unit hordered input
      refine ⟨project, range, unit, c, rfl, rfl, hunit, ?_, hpiped, hreports.result_eq, ?_,
        hverdicts, ?_⟩
      · rw [Document.compare, read_fromFile hfile hinput hnull hcwd hlength]
        rfl
      · exact Assist.formatText_eq_formatText_dropMark_iff unit hordered input
      · rw [exit_of_text hpiped, exit_of_compared hreports, Except.ok.injEq, exit_eq_iff,
          ← hverdicts]
        cases hcheck : request.check <;> simp [Request.fromInput, Request.fromFile, hcheck]

/-- A page with a mark at its front, in a file and on the standard input. -/
def markedPage (page : String) : Session where
  tree := {
    entries := [
      (["site"], .directory),
      (["site", "a.fubelt"], .file (Text.toUtf8 (Text.byteOrderMark :: page.toList)))] }
  cwd := ["site"]
  input := Text.toUtf8 (Text.byteOrderMark :: page.toList)

theorem probe_markedPage (page : String) :
    (markedPage page).tree.probe (markedPage page).cwd (Path.ofString "a.fubelt") =
      .ok (some (["site", "a.fubelt"], .file (markedPage page).input)) := by
  rfl

theorem nullFree_markedPage (page : String) : (markedPage page).tree.NullFree := by
  simp [FileTree.NullFree, markedPage]

theorem reaches_markedPage (page : String) :
    (markedPage page).tree.Reaches (markedPage page).cwd := by
  rfl

theorem openProject_markedPage (page : String) :
    (openProject (markedPage page) {}).2 =
      .ok { root := Project.pathOf ["site"], settings := {} } := by
  rfl

theorem ofInput?_markedPage {page : String} (hreturn : '\r' ∉ page.toList) :
    Text.ofInput? (markedPage page).input = some (Text.byteOrderMark :: page.toList) := by
  rw [Text.ofInput?, markedPage, Text.ofUtf8?_toUtf8, Option.map_some,
    Text.plainLineEnds_eq_self (List.not_mem_cons_of_ne_of_not_mem (by decide) hreturn)]

/-- A list that is not laid out, with a mark before it. -/
def markedList : Session :=
  markedPage "<ul>\n<li>x</li>\n</ul>\n"

theorem fromInput_agrees_with_fromFile_markedList :
    (perform markedList { check := true, stdin := true }).result =
      .ok (.text (Text.byteOrderMark :: (listOn "a.fubelt").before)
        (listOn "a.fubelt").formatted) ∧
    (perform markedList { check := true, paths := ["a.fubelt"] }).result =
      .ok (.files 1 { changed := [listOn "a.fubelt"] }) ∧
    (run markedList { check := true, stdin := true }).exit =
      (run markedList { check := true, paths := ["a.fubelt"] }).exit := by
  have hagrees := fromInput_agrees_with_fromFile_iff markedList { check := true }
    (ofInput?_markedPage (by decide)) (probe_markedPage _) (by decide +kernel)
    (nullFree_markedPage _) (reaches_markedPage _)
  have hpiped : (perform markedList { check := true, stdin := true }).result =
      .ok (.text (Text.byteOrderMark :: (listOn "a.fubelt").before)
        (listOn "a.fubelt").formatted) := by
    decide +kernel
  refine ⟨hpiped, ?_⟩
  rcases hagrees with ⟨fault, hfails, -⟩ |
    ⟨project, range, unit, c, hproject, hrange, hunit, hcompare, -, hfiled, -, -, hexits⟩
  · exact absurd (hpiped.symm.trans hfails) nofun
  · cases (openProject_markedPage _).symm.trans hproject
    cases hrange
    cases hunit
    have hlist : Document.compare markedList.tree markedList.cwd {} (sitePage "a.fubelt") =
        .ok (listOn "a.fubelt") := by
      decide +kernel
    cases hlist.symm.trans hcompare
    exact ⟨hfiled, hexits.mpr (.inr (.inr (.inr (by decide +kernel))))⟩

/-- A page that needs no formatting passes the check in a file, and with the mark that the standard
input keeps it does not. -/
theorem fromInput_differs_from_fromFile_markedBreak :
    (run (markedPage "<br/>\n") { check := true, stdin := true }).exit = .ok checkFailed ∧
    (run (markedPage "<br/>\n") { check := true, paths := ["a.fubelt"] }).exit = .ok success := by
  have hreports := @reports_fromFile _ _ _ (probe_markedPage "<br/>\n") { check := true } _ _
    (openProject_markedPage _) rfl _ (ofInput?_markedPage (by decide)) (nullFree_markedPage _)
    (reaches_markedPage _) (by decide +kernel) _ rfl
  rw [entered_ok] at hreports
  refine ⟨by decide +kernel, (exit_of_compared hreports).trans ?_⟩
  decide +kernel

end Format
end Command
end Reindent
