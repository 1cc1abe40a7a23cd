import Reindent.Proofs.Arguments.Encoding
import Reindent.Proofs.Command.FormatEffect
import Reindent.Proofs.Selection.Membership
import Reindent.Tool.Files

/-!
# The tool on files and the texts it is sent

The tool on files does its work through a command line, so the root and the paths of a request pass
two grammars: that of the program, which only has to read them, and that of the format command,
which has to read them as operands.  The command line says what the request says exactly when they
all pass.  Then the tool does what can also be said without a command line: it opens the project,
finds the documents, and formats them.  A text that starts with a hyphen need not pass, and then a
path can be taken for an option.
-/

namespace Reindent

open Arguments

namespace Command

theorem nonEmpty_nonEmpty (choice : Option String) :
    nonEmpty (nonEmpty choice) = nonEmpty choice := by
  simp [nonEmpty]

/-! ## The command line of the program -/

namespace Line

theorem parse_format_iff {rest : List String} {p : Parsed} :
    parse programGrammar ("format" :: rest) = .ok p ↔
      (∃ all, readAll programGrammar rest = .ok all) ∧
        p = { operands := some ("format" :: rest) } :=
  parse_command_iff rfl (by decide) (by decide +kernel)

/-- A command line that begins with the name of the format command asks for that command. -/
theorem exists_format_of_read
    {rest : List String} {instruction : Instruction}
    (h : read ("format" :: rest) = .ok instruction) :
    (∃ all, readAll programGrammar rest = .ok all) ∧
      ∃ request, readFormat rest = .ok (.format request, []) ∧
        instruction = { verbose := false, invocation := .format request } := by
  obtain ⟨p, hp, h⟩ := exists_of_bind_eq_ok h
  obtain ⟨hall, rfl⟩ := parse_format_iff.mp hp
  obtain ⟨explained, hcommand, h⟩ := exists_of_bind_eq_ok h
  obtain ⟨⟨invocation, leftover⟩, hread, hexplained⟩ := exists_of_bind_eq_ok hcommand
  cases hexplained
  dsimp only at h
  split at h
  · cases h
  · next hnone =>
    obtain rfl : leftover = [] := Decidable.not_not.mp hnone
    cases h
    obtain ⟨parsed, -, hformat⟩ := exists_of_bind_eq_ok hread
    obtain ⟨rfl, -⟩ := Prod.mk.inj (Except.ok.inj hformat)
    exact ⟨hall, _, hread, rfl⟩

theorem read_format_iff {rest : List String} {request : Format.Request} :
    read ("format" :: rest) = .ok { verbose := false, invocation := .format request } ↔
      (∃ all, readAll programGrammar rest = .ok all) ∧
        readFormat rest = .ok (.format request, []) := by
  constructor
  · intro h
    obtain ⟨hall, other, hread, hother⟩ := exists_format_of_read h
    cases hother
    exact ⟨hall, hread⟩
  · rintro ⟨hall, hread⟩
    have hcommand : readCommand programGrammar "command" programCommands
        { operands := some ("format" :: rest) } = .ok (.format request, []) := by
      have hlookup : programCommands.lookup "format" = some readFormat := rfl
      simp only [readCommand, hlookup, hread, bind, Except.bind]
      rfl
    rw [read, parse_format_iff.mpr ⟨hall, rfl⟩]
    simp only [bind, Except.bind, hcommand]
    rfl

end Line
end Command

namespace Tool

open Command (Session nonEmpty openProject targets)
open Command.Format (sitePage listOn)
open Command.Line (programGrammar formatGrammar longOption)

/-! ## Texts that pass -/

/-- The program reads the text, and the format command reads it as an operand. -/
def PassesAsOperand (text : String) : Prop :=
  (∃ reading, readArgument programGrammar text.toList = .ok reading) ∧
    formatGrammar.IsOperand text

theorem passesAsOperand_of_head {text : String} (h : text.toList.head? ≠ some '-') :
    PassesAsOperand text :=
  ⟨⟨.operand, programGrammar.isOperand_of_head h⟩, formatGrammar.isOperand_of_head h⟩

namespace FilesRequest

/-- The root and the paths of a request all pass. -/
def Passes (request : FilesRequest) : Prop :=
  (∀ root ∈ nonEmpty request.root, PassesAsOperand root) ∧
    ∀ path ∈ request.paths, PassesAsOperand path

/-- The options that a request is to apply. -/
def flags (request : FilesRequest) : List Flag :=
  { spec := longOption "--json" .switch } ::
    (nonEmpty request.root).toList.map
        (fun root => { spec := longOption "--root" .text, value := some root })
      ++ if request.check then [{ spec := longOption "--check" .switch }] else []

/-- The format command that a request is to be. -/
def asked (request : FilesRequest) : Command.Format.Request where
  project := { root := nonEmpty request.root }
  json := true
  check := request.check
  paths := request.paths

theorem arguments_eq (request : FilesRequest) :
    request.arguments = "format" :: written request.flags request.paths := by
  rw [arguments, flags, written]
  cases nonEmpty request.root <;> cases request.check <;> rfl

theorem fits_flags (request : FilesRequest) : ∀ flag ∈ request.flags, flag.Fits formatGrammar := by
  have hjson : Flag.Fits formatGrammar { spec := longOption "--json" .switch } :=
    ⟨by decide +kernel, by decide, rfl⟩
  have hcheck : Flag.Fits formatGrammar { spec := longOption "--check" .switch } :=
    ⟨by decide +kernel, by decide, rfl⟩
  have hreading : readArgument formatGrammar "--root".toList =
      .ok (Flag.named { spec := longOption "--root" .text }).reading := by
    decide +kernel
  have hroot (root : String) : Flag.Fits formatGrammar
      { spec := longOption "--root" .text, value := some root } :=
    ⟨hreading, show "--root" ≠ endMark by decide, rfl⟩
  rw [flags]
  cases nonEmpty request.root <;> cases request.check <;> simp [hjson, hroot, hcheck]

theorem readFormat_iff (request : FilesRequest) :
    Command.Line.readFormat (written request.flags request.paths) =
        .ok (.format request.asked, []) ↔
      formatGrammar.Accepts request.flags request.paths := by
  constructor
  · intro h
    obtain ⟨p, hp, h⟩ := exists_of_bind_eq_ok h
    have hpaths : p.operands.getD [] = request.paths := by
      have hasked := congrArg Prod.fst (Except.ok.inj h)
      injection hasked with hasked
      exact congrArg Command.Format.Request.paths hasked
    exact (parse_written_iff rfl request.fits_flags).mp ⟨p, hp, hpaths⟩
  · intro haccepts
    rw [Command.Line.readFormat, parse_written rfl request.fits_flags haccepts, asked, flags]
    cases nonEmpty request.root <;> cases request.check <;> rfl

theorem accepts_flags_iff (request : FilesRequest) :
    formatGrammar.Accepts request.flags request.paths ↔
      (∀ root ∈ nonEmpty request.root, formatGrammar.IsOperand root) ∧
        ∀ path ∈ request.paths, formatGrammar.IsOperand path := by
  rw [Grammar.Accepts, flags]
  cases nonEmpty request.root <;> cases request.check <;> simp

theorem forall_mem_written_iff {P : String → Prop} (request : FilesRequest) :
    (∀ text ∈ written request.flags request.paths, P text) ↔
      P "--json" ∧ (∀ root ∈ nonEmpty request.root, P "--root" ∧ P root) ∧
        (request.check = true → P "--check") ∧ ∀ path ∈ request.paths, P path := by
  rw [written, flags]
  cases nonEmpty request.root <;> cases request.check <;>
    simp [Flag.arguments, longOption, OptionSpec.key, or_imp, forall_and, and_assoc]

/-- The command line of a request asks for what the request asks for, exactly if its texts pass. -/
theorem read_arguments_iff (request : FilesRequest) :
    Command.Line.read request.arguments =
        .ok { verbose := false, invocation := .format request.asked } ↔
      request.Passes := by
  rw [arguments_eq, Command.Line.read_format_iff, readFormat_iff, accepts_flags_iff]
  constructor
  · rintro ⟨⟨all, hall⟩, hroot, hpaths⟩
    -- behind a mark nothing is read one by one, and operands leave no room for one
    have hmark : ∀ text ∈ written request.flags request.paths, text ≠ endMark :=
      request.forall_mem_written_iff.mpr ⟨by decide,
        fun root hmem => ⟨by decide, (hroot root hmem).ne_endMark⟩, fun _ => by decide,
        fun path hmem => (hpaths path hmem).ne_endMark⟩
    have hreadings := exists_reading_of_readAll hall fun hmem => hmark _ hmem rfl
    obtain ⟨-, hroots, -, hothers⟩ := request.forall_mem_written_iff.mp hreadings
    exact ⟨fun root hmem => ⟨(hroots root hmem).2, hroot root hmem⟩,
      fun path hmem => ⟨hothers path hmem, hpaths path hmem⟩⟩
  · rintro ⟨hroot, hpaths⟩
    have hunknown : ∀ name ∈ ["--json", "--root", "--check"],
        readArgument programGrammar name.toList = .ok .unknownOption := by
      decide +kernel
    refine ⟨exists_readAll (request.forall_mem_written_iff.mpr ⟨?_, ?_, ?_, ?_⟩),
      fun root hmem => (hroot root hmem).2, fun path hmem => (hpaths path hmem).2⟩
    · exact ⟨_, hunknown "--json" (by simp)⟩
    · exact fun root hmem => ⟨⟨_, hunknown "--root" (by simp)⟩, (hroot root hmem).1⟩
    · exact fun _ => ⟨_, hunknown "--check" (by simp)⟩
    · exact fun path hmem => (hpaths path hmem).1

/-- The command line of a request cannot be read, or it asks for the format command. -/
theorem outcome_cases (session : Session) (request : FilesRequest) :
    (∃ stop, Command.Line.read request.arguments = .error stop ∧
      request.outcome session = Command.Line.stopped session stop) ∨
    ∃ format, Command.Line.read request.arguments =
        .ok { verbose := false, invocation := .format format } ∧
      request.outcome session = Command.Format.run session format := by
  rw [outcome]
  cases h : Command.Line.read request.arguments with
  | error stop => exact Or.inl ⟨stop, rfl, rfl⟩
  | ok instruction =>
      right
      rw [arguments_eq] at h
      obtain ⟨-, format, -, rfl⟩ := Command.Line.exists_format_of_read h
      exact ⟨format, rfl, rfl⟩

/-! ## The request without a command line -/

/-- The documents of a request and how they are formatted. -/
def prepared (session : Session) (request : FilesRequest) :
    Except Fault (List Path × Document.Formatting) := do
  let project ← (openProject session { root := request.root }).2
  let found ← Selection.documents session.tree session.cwd project.settings.extensions
    project.settings.excluded (targets project request.paths)
  let unit ← orCrash ((project.settings.unit session.memory).mapError .indentation)
  return (found, { unit, write := !request.check })

/-- The report on the documents of a request. -/
def report (request : FilesRequest) (tally : Command.Format.Tally) : Json :=
  .obj [("command", .str "format"),
    ("ok", .bool (tally.failed.isEmpty && !(request.check && !tally.changed.isEmpty))),
    ("written", .bool (!request.check)),
    ("changed", .strings (Command.Format.pathTexts tally.changed)),
    ("unchanged", .strings (tally.unchanged.map Path.text)),
    ("failed", .obj (tally.failed.map fun f => (f.1.text, .str f.2)))]

/-- What a request asks for: the tree it is to leave and the answer it is to get. -/
def direct (session : Session) (request : FilesRequest) : FileTree × Except Crash Json :=
  match request.prepared session with
  | .error (.crash cause) => (session.tree, .error cause)
  | .error fault => (session.tree, .ok (failure "format" fault.message))
  | .ok (paths, how) =>
    let (p, ended) := Command.Format.documents session.cwd how { tree := session.tree } paths
    (p.tree, ended.map fun _ => request.report p.tally)

theorem writes_asked (request : FilesRequest) :
    Command.Format.writes request.asked = !request.check := by
  simp [Command.Format.writes, asked]

theorem prepared_asked (session : Session) (request : FilesRequest) :
    Command.Format.prepared session request.asked = request.prepared session := by
  have hopen : openProject session request.asked.project =
      openProject session { root := request.root } := by
    rw [asked, openProject, openProject, Command.nonEmpty_nonEmpty]
  rw [Command.Format.prepared, prepared, hopen]
  refine bind_congr fun project => ?_
  -- no range of lines is asked for, so any number of documents will do
  change Command.Format.chosen session request.asked project none = _
  rw [Command.Format.chosen, writes_asked]
  rfl

theorem json_asked (request : FilesRequest) (count : ℕ) (tally : Command.Format.Tally) :
    Command.Format.Result.json request.asked (.files count tally) = request.report tally := by
  rw [Command.Format.Result.json, report, writes_asked]
  rfl

/-- The format command that a request is to be does what the request asks for. -/
theorem run_asked (session : Session) (request : FilesRequest) :
    (Command.Format.run session request.asked).tree = (request.direct session).1 ∧
      (Command.Format.run session request.asked).exit.map
          (fun _ => answerOf (Command.Format.run session request.asked).output) =
        (request.direct session).2.map Json.pretty := by
  have hprepared := prepared_asked session request
  rw [direct]
  cases h : request.prepared session with
  | error fault =>
      obtain ⟨htree, hresult⟩ := Command.Format.perform_of_prepared_error rfl (hprepared.trans h)
      rw [Command.Format.run, hresult]
      simp only [htree]
      cases fault <;> exact ⟨rfl, rfl⟩
  | ok found =>
      rcases found with ⟨docs, how⟩
      rcases hrun : Command.Format.documents session.cwd how { tree := session.tree } docs with
        ⟨last, ended⟩
      obtain ⟨htree, hresult⟩ :=
        Command.Format.perform_of_prepared rfl (hprepared.trans h) hrun
      simp only [hrun]
      cases ended with
      | error cause =>
          rw [Command.Format.run, hresult]
          exact ⟨htree, rfl⟩
      | ok _ =>
          rw [Command.Format.run, hresult, ← json_asked request docs.length]
          exact ⟨htree, rfl⟩

theorem passes_of_head
    {request : FilesRequest}
    (h : ∀ text ∈ (nonEmpty request.root).toList ++ request.paths,
      text.toList.head? ≠ some '-') :
    request.Passes := by
  refine ⟨fun root hroot => passesAsOperand_of_head (h root ?_),
    fun path hpath => passesAsOperand_of_head (h path (List.mem_append_right _ hpath))⟩
  exact List.mem_append_left _ (Option.mem_toList.mpr hroot)

end FilesRequest

/-! ## The tool -/

/-- The command line of a request says what the request says exactly if its texts pass, and those
that do not start with a hyphen pass.  Then the tool leaves the tree and gives the answer that the
request asks for.  Whatever the texts are, the tool does what the format command does that its
command line asks for, or stops because the command line cannot be read. -/
theorem formatFiles_treats_texts_as_paths (session : Session) (request : FilesRequest) :
    (Command.Line.read request.arguments =
        .ok { verbose := false, invocation := .format request.asked } ↔ request.Passes) ∧
      ((∀ text ∈ (nonEmpty request.root).toList ++ request.paths,
        text.toList.head? ≠ some '-') → request.Passes) ∧
      (request.Passes →
        (formatFiles session request).session.tree = (request.direct session).1 ∧
          (formatFiles session request).answer = (request.direct session).2.map Json.pretty) ∧
      ((∃ stop, Command.Line.read request.arguments = .error stop ∧
        request.outcome session = Command.Line.stopped session stop) ∨
      ∃ format, Command.Line.read request.arguments =
          .ok { verbose := false, invocation := .format format } ∧
        request.outcome session = Command.Format.run session format) := by
  refine ⟨request.read_arguments_iff, FilesRequest.passes_of_head, fun hpasses => ?_,
    request.outcome_cases session⟩
  have houtcome : request.outcome session = Command.Format.run session request.asked := by
    rw [FilesRequest.outcome, request.read_arguments_iff.mpr hpasses]
  obtain ⟨htree, hanswer⟩ := request.run_asked session
  rw [formatFiles, houtcome]
  exact ⟨htree, hanswer⟩

/-- A list with an item out of place, in a file of the working directory. -/
def listAt (name : String) : Session where
  tree := {
    entries := [
      (["site"], .directory),
      (["site", name], .file (Text.toUtf8 (listOn name).before))] }
  cwd := ["site"]

theorem prepared_listAt
    (name : String)
    (hfile : (listAt name).tree.probe (listAt name).cwd (Path.ofString name) =
      .ok (some (["site", name], .file (Text.toUtf8 (listOn name).before))))
    (hproject : (openProject (listAt name) {}).2 =
      .ok { root := Project.pathOf ["site"], settings := {} }) :
    FilesRequest.prepared (listAt name) { paths := [name] } =
      .ok ([sitePage name], { unit := Layout.tab, write := true }) := by
  have htargets : targets { root := Project.pathOf ["site"], settings := {} } [name] =
      [Path.ofString name] := rfl
  simp only [FilesRequest.prepared, hproject, bind, Except.bind, htargets,
    Selection.documents_of_file hfile]
  rfl

theorem formatFiles_treats_texts_as_paths_plainName :
    (formatFiles (listAt "a.fubelt") { paths := ["a.fubelt"] }).session.tree.bytes?
        ["site", "a.fubelt"] = some (Text.toUtf8 (listOn "a.fubelt").formatted) ∧
      (formatFiles (listAt "a.fubelt") { paths := ["a.fubelt"] }).answer =
        .ok (FilesRequest.report { paths := ["a.fubelt"] }
          { changed := [listOn "a.fubelt"] }).pretty := by
  obtain ⟨-, hpasses, hdirect, -⟩ :=
    formatFiles_treats_texts_as_paths (listAt "a.fubelt") { paths := ["a.fubelt"] }
  obtain ⟨htree, hanswer⟩ := hdirect (hpasses (by decide))
  have hprepared := prepared_listAt "a.fubelt" (by rfl) (by rfl)
  rw [htree, hanswer, FilesRequest.direct, hprepared]
  exact ⟨by decide +kernel, by rfl⟩

/-- A path that is the name of an option is taken for the option, and a file whose name starts with
a hyphen stays as it is although the request asks to format it. -/
theorem formatFiles_differs_hyphenatedName :
    Command.Line.read (FilesRequest.arguments { paths := ["--check"] }) =
        .ok { verbose := false, invocation := .format { json := true, check := true } } ∧
      (formatFiles (listAt "-a.fubelt") { paths := ["-a.fubelt"] }).session.tree.bytes?
        ["site", "-a.fubelt"] = some (Text.toUtf8 (listOn "-a.fubelt").before) ∧
      (FilesRequest.direct (listAt "-a.fubelt") { paths := ["-a.fubelt"] }).1.bytes?
        ["site", "-a.fubelt"] = some (Text.toUtf8 (listOn "-a.fubelt").formatted) := by
  refine ⟨by decide +kernel, by decide +kernel, ?_⟩
  rw [FilesRequest.direct, prepared_listAt "-a.fubelt" (by rfl) (by rfl)]
  decide +kernel

end Tool
end Reindent
