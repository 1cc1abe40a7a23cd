import Reindent.Command.Session
import Reindent.Proofs.FileTree.Placement
import Reindent.Proofs.Selection.Documents
import Reindent.Proofs.Toml.Statements

/-!
# The nearest root

The root of a project is looked for upward, from the directory of a file or from any other path as
it stands.  The directories on the way are asked one by one, the deepest first, so the first with a
settings file is the nearest.  A directory of that name is no settings file.  The search ends at the
root directory: each step takes one name away.

Where the search begins is told without the tree, by taking the two dots out.  A path that leads
somewhere is searched from the place where it leads, whatever two dots it has.

A command that is told no project works for the nearest one around the working directory.
-/

namespace Reindent

/-! ## Names and their lengths -/

namespace Path

theorem mem_of_mem_withoutDots
    {name : String} {names : List String} (h : name ∈ withoutDots names) :
    name ∈ names := by
  rw [withoutDots, List.mem_reverse] at h
  have hkept : ∀ (names kept : List String),
      name ∈ names.foldl (fun kept name => if name = ".." then kept.drop 1 else name :: kept)
        kept → name ∈ kept ∨ name ∈ names := by
    intro names
    induction names with
    | nil => exact fun _ hmem => Or.inl hmem
    | cons first rest ih =>
        intro kept hmem
        rcases ih _ hmem with hfirst | hrest
        · dsimp only at hfirst
          split at hfirst
          · exact Or.inl (List.mem_of_mem_drop hfirst)
          · rcases List.mem_cons.mp hfirst with rfl | hold
            · exact Or.inr List.mem_cons_self
            · exact Or.inl hold
        · exact Or.inr (List.mem_cons_of_mem first hrest)
  rcases hkept names [] h with hnil | hmem
  · cases hnil
  · exact hmem

theorem hasNull_eq_false_iff
    {path : Path} :
    path.hasNull = false ↔ ∀ name ∈ path.names, '\x00' ∉ name.toList := by
  simp [hasNull]

theorem mem_names_of_mem_resolve
    {cwd : Location} {path : Path} {name : String}
    (h : name ∈ (path.resolve (Project.pathOf cwd)).names) :
    name ∈ cwd ∨ name ∈ path.names := by
  have hjoin := mem_of_mem_withoutDots h
  rw [Project.pathOf, FileTree.names_join, List.mem_append] at hjoin
  refine hjoin.imp_left fun hmem => ?_
  rw [FileTree.start] at hmem
  split at hmem
  · cases hmem
  · exact hmem

theorem utf8ByteSize_intercalate_cons
    (first : String) {rest : List String} (h : rest ≠ []) :
    ("/".intercalate (first :: rest)).utf8ByteSize =
      first.utf8ByteSize + 1 + ("/".intercalate rest).utf8ByteSize := by
  rw [String.intercalate_cons_of_ne_nil h, String.utf8ByteSize_append, String.utf8ByteSize_append]
  rfl

/-- A name more makes the text of the names longer, wherever it stands. -/
theorem utf8ByteSize_intercalate_le (above : List String) (name : String) (more : List String) :
    ("/".intercalate (above ++ more)).utf8ByteSize ≤
      ("/".intercalate (above ++ name :: more)).utf8ByteSize := by
  induction above with
  | nil =>
      rcases eq_or_ne more [] with rfl | hmore
      · exact Nat.zero_le _
      · rw [List.nil_append, List.nil_append, utf8ByteSize_intercalate_cons name hmore]
        omega
  | cons first rest ih =>
      have hlonger : rest ++ name :: more ≠ [] := by simp
      rw [List.cons_append, List.cons_append, utf8ByteSize_intercalate_cons first hlonger]
      rcases eq_or_ne (rest ++ more) [] with hnil | hmore
      · rw [hnil, String.intercalate_singleton]
        omega
      · rw [utf8ByteSize_intercalate_cons first hmore]
        omega

theorem utf8ByteSize_text_pathOf (location : Location) :
    (Project.pathOf location).text.utf8ByteSize =
      1 + ("/".intercalate location).utf8ByteSize := by
  rw [text, if_neg (by simp [Project.pathOf]), String.utf8ByteSize_append]
  rfl

end Path

namespace FileTree

variable {tree : FileTree} {cwd location : Location} {path : Path}

theorem Reaches.enter_last
    {name : String} (h : tree.Reaches (location ++ [name])) :
    tree.enter location name = .ok (location ++ [name]) := by
  obtain ⟨above, hwalk, henter⟩ := walk_concat_of_ok h
  obtain rfl : location = above := Except.ok.inj (h.of_append.1.symm.trans hwalk)
  exact henter

/-- No name on the way to a reached location is too long. -/
theorem Reaches.name_le
    (h : tree.Reaches location) :
    ∀ name ∈ location, name.utf8ByteSize ≤ nameLimit := by
  induction location using List.reverseRecOn with
  | nil => exact fun _ hmem => nomatch hmem
  | append_singleton above last ih =>
      intro name hmem
      rcases List.mem_append.mp hmem with habove | hlast
      · exact ih h.of_append.1 name habove
      · obtain rfl := List.mem_singleton.mp hlast
        rcases (enter_eq_ok_iff.mp h.enter_last).2 with ⟨hdots, -⟩ | ⟨-, hname, -⟩
        · exact absurd (hdots ▸ hmem) h.dots_not_mem
        · exact hname

/-- Above a reached location there is a directory. -/
theorem Reaches.hasDirectory_dropLast
    (h : tree.Reaches location) :
    tree.hasDirectory location.dropLast = true := by
  rcases List.eq_nil_or_concat location with rfl | ⟨above, last, rfl⟩
  · rfl
  · rw [List.concat_eq_append] at h ⊢
    rw [List.dropLast_concat]
    exact h.hasDirectory

theorem hasDirectory_eq_false_of_file
    {bytes : ByteArray} (h : tree.node? location = some (.file bytes)) :
    tree.hasDirectory location = false := by
  rw [hasDirectory, h]

/-- The path of a file without its last name leads to the directory that the file is in. -/
theorem walk_dropLast_of_target?
    (hcwd : tree.Reaches cwd) (hdirectory : tree.hasDirectory cwd = true)
    (h : tree.target? cwd path = some location) :
    tree.walk (start cwd path) path.names.dropLast = .ok location.dropLast := by
  obtain ⟨bytes, hprobe⟩ := target?_eq_some_iff.mp h
  obtain ⟨hlocate, hnode⟩ := locate_of_probe hprobe
  have hfile := hasDirectory_eq_false_of_file hnode
  rw [locate] at hlocate
  split at hlocate
  · cases hlocate
  rcases List.eq_nil_or_concat path.names with hnil | ⟨above, last, hnames⟩
  · -- A path without names leads to a directory.
    rw [hnil] at hlocate
    rw [← Except.ok.inj hlocate, start] at hfile
    split at hfile
    · cases hfile
    · rw [hdirectory] at hfile
      cases hfile
  · rw [List.concat_eq_append] at hnames
    rw [hnames] at hlocate
    rw [hnames, List.dropLast_concat]
    obtain ⟨found, hwalk, henter⟩ := walk_concat_of_ok hlocate
    rcases enter_cases henter with ⟨-, hup⟩ | ⟨-, hdown, -⟩
    · -- Going up never ends at a file.
      have habove := ((hcwd.start path).walk hwalk).hasDirectory_dropLast
      rw [← hup, hfile] at habove
      cases habove
    · rw [hwalk, hdown, List.dropLast_concat]

end FileTree

/-! ## The search upward -/

namespace Project

open FileTree

variable {tree : FileTree} {cwd directory : Location} {start : Path}

/-- A directory has a settings file. -/
def HasSettings (tree : FileTree) (directory : Location) : Prop :=
  tree.HasFile (directory ++ [Settings.fileName])

/-- The nearest root: the longest location on the way to a directory that has a settings file. -/
structure IsNearestRoot (tree : FileTree) (directory root : Location) : Prop where
  above : root <+: directory
  hasSettings : HasSettings tree root
  longest : ∀ other, other <+: directory → HasSettings tree other → other.length ≤ root.length

namespace IsNearestRoot

theorem self (h : HasSettings tree directory) :
    IsNearestRoot tree directory directory :=
  ⟨List.prefix_rfl, h, fun _ hother _ => hother.length_le⟩

theorem below
    {root : Location} {name : String} (hnone : ¬ HasSettings tree (directory ++ [name]))
    (h : IsNearestRoot tree directory root) :
    IsNearestRoot tree (directory ++ [name]) root := by
  refine ⟨h.above.trans (List.prefix_append _ _), h.hasSettings, fun other hother hsettings => ?_⟩
  rcases List.prefix_concat_iff.mp hother with rfl | habove
  · exact absurd hsettings hnone
  · exact h.longest other habove hsettings

theorem unique
    {root other : Location} (h : IsNearestRoot tree directory root)
    (hother : IsNearestRoot tree directory other) :
    root = other := by
  have hle := hother.longest root h.above h.hasSettings
  have hge := h.longest other hother.above hother.hasSettings
  exact (List.prefix_of_prefix_length_le h.above hother.above hle).eq_of_length
    (Nat.le_antisymm hle hge)

end IsNearestRoot

/-- The settings file of a directory is no longer than a path may be. -/
def Fits (directory : Location) : Prop :=
  (pathOf (directory ++ [Settings.fileName])).text.utf8ByteSize ≤ pathLimit

/-- A directory where a settings file can be asked for. -/
structure IsSearchable (directory : Location) : Prop where
  dots_not_mem : ".." ∉ directory
  null_not_mem : ∀ name ∈ directory, '\x00' ∉ name.toList
  name_le : ∀ name ∈ directory, name.utf8ByteSize ≤ nameLimit
  fits : Fits directory

namespace IsSearchable

theorem of_append
    {name : String} (h : IsSearchable (directory ++ [name])) :
    IsSearchable directory where
  dots_not_mem := fun hmem => h.dots_not_mem (List.mem_append_left _ hmem)
  null_not_mem := fun other hmem => h.null_not_mem other (List.mem_append_left _ hmem)
  name_le := fun other hmem => h.name_le other (List.mem_append_left _ hmem)
  fits := by
    have hfits := h.fits
    have hshorter := Path.utf8ByteSize_intercalate_le directory name [Settings.fileName]
    rw [Fits, Path.utf8ByteSize_text_pathOf, List.append_assoc] at hfits
    rw [Fits, Path.utf8ByteSize_text_pathOf]
    exact le_trans (Nat.add_le_add_left hshorter 1) hfits

theorem of_prefix
    {above : Location} (h : IsSearchable directory) (habove : above <+: directory) :
    IsSearchable above := by
  induction directory using List.reverseRecOn with
  | nil => rwa [List.prefix_nil.mp habove]
  | append_singleton rest last ih =>
      rcases List.prefix_concat_iff.mp habove with rfl | hrest
      · exact h
      · exact ih h.of_append hrest

variable (h : IsSearchable directory)

include h

theorem dots_not_mem_settings :
    ".." ∉ directory ++ [Settings.fileName] := by
  rw [List.mem_append, not_or]
  exact ⟨h.dots_not_mem, by decide⟩

theorem hasNull_settings :
    (pathOf (directory ++ [Settings.fileName])).hasNull = false := by
  rw [Path.hasNull_eq_false_iff]
  intro name hmem
  rcases List.mem_append.mp hmem with hname | hlast
  · exact h.null_not_mem name hname
  · obtain rfl := List.mem_singleton.mp hlast
    decide

theorem withinLimits_settings :
    (pathOf (directory ++ [Settings.fileName])).WithinLimits := by
  refine ⟨h.fits, fun name hmem => ?_⟩
  rcases List.mem_append.mp hmem with hname | hlast
  · exact h.name_le name hname
  · obtain rfl := List.mem_singleton.mp hlast
    decide

/-- The path of a settings file that is there leads to it. -/
theorem locate_settings
    (hsettings : HasSettings tree directory) (cwd : Location) :
    tree.locate cwd (pathOf (directory ++ [Settings.fileName])) =
      .ok (directory ++ [Settings.fileName]) := by
  rw [locate_of_reaches rfl hsettings.1, if_neg (Nat.not_lt.mpr h.withinLimits_settings.text_le)]
  rfl

/-- Asking for a settings file tells whether there is one. -/
theorem isFile_settings_iff (tree : FileTree) (cwd : Location) :
    tree.isFile cwd (pathOf (directory ++ [Settings.fileName])) = .ok true ↔
      HasSettings tree directory := by
  rw [isFile_eq_true_iff]
  constructor
  · rintro ⟨location, bytes, hprobe⟩
    have hlocation := eq_names_of_locate rfl h.dots_not_mem_settings (locate_of_probe hprobe).1
    rw [hlocation] at hprobe
    refine hasFile_of_probe ?_ hprobe
    rw [start_of_isAbsolute rfl]
    exact tree.reaches_nil
  · intro hsettings
    obtain ⟨bytes, hnode⟩ := hsettings.2
    exact ⟨_, bytes, probe_eq_some_iff.mpr
      ⟨h.hasNull_settings, h.locate_settings hsettings cwd, hnode⟩⟩

theorem isFile_settings_of_not
    (hnone : ¬ HasSettings tree directory) :
    tree.isFile cwd (pathOf (directory ++ [Settings.fileName])) = .ok false := by
  obtain ⟨found, hprobe⟩ := exists_probe_of_withinLimits h.withinLimits_settings tree cwd
  rw [← h.isFile_settings_iff tree cwd, isFile_eq, kind?, hprobe] at hnone
  rw [isFile_eq, kind?, hprobe]
  exact congrArg Except.ok (Bool.eq_false_iff.mpr fun htrue => hnone (congrArg Except.ok htrue))

end IsSearchable

/-! One step of the search: it ends where a settings file is, and goes on above where none is. -/

theorem searchUp_of_hasSettings
    (h : IsSearchable directory) (hsettings : HasSettings tree directory) :
    searchUp tree directory.reverse = .ok (pathOf directory) := by
  have hfile := (h.isFile_settings_iff tree []).mpr hsettings
  rcases List.eq_nil_or_concat directory with rfl | ⟨above, last, rfl⟩
  · rw [List.reverse_nil, searchUp]
    exact bind_eq_ok (congrArg orCrash hfile) rfl
  · rw [List.concat_eq_append] at hfile ⊢
    rw [List.reverse_append, List.reverse_singleton, List.singleton_append, searchUp,
      List.reverse_cons, List.reverse_reverse]
    exact bind_eq_ok (congrArg orCrash hfile) rfl

theorem searchUp_nil_of_not
    (hnone : ¬ HasSettings tree []) (h : IsSearchable []) :
    searchUp tree [] = .error (.settings .noProject) := by
  have hfile : tree.isFile [] (pathOf [Settings.fileName]) = .ok false :=
    h.isFile_settings_of_not hnone
  rw [searchUp, hfile]
  rfl

theorem searchUp_append_of_not
    {name : String} (h : IsSearchable (directory ++ [name]))
    (hnone : ¬ HasSettings tree (directory ++ [name])) :
    searchUp tree (directory ++ [name]).reverse = searchUp tree directory.reverse := by
  have hfile : tree.isFile [] ((pathOf (directory ++ [name])).child Settings.fileName) =
      .ok false := h.isFile_settings_of_not hnone
  rw [List.reverse_append, List.reverse_singleton, List.singleton_append, searchUp,
    List.reverse_cons, List.reverse_reverse, hfile]
  rfl

/-- What a search upward from a directory gives: the nearest root, or the fault that there is
none. -/
theorem searchUp_cases
    (h : IsSearchable directory) (tree : FileTree) :
    (∃ root, searchUp tree directory.reverse = .ok (pathOf root) ∧
        IsNearestRoot tree directory root) ∨
      searchUp tree directory.reverse = .error (.settings .noProject) ∧
        ∀ above, above <+: directory → ¬ HasSettings tree above := by
  induction directory using List.reverseRecOn with
  | nil =>
      by_cases hsettings : HasSettings tree []
      · exact Or.inl ⟨[], searchUp_of_hasSettings h hsettings, .self hsettings⟩
      · refine Or.inr ⟨searchUp_nil_of_not hsettings h, fun above habove => ?_⟩
        rwa [List.prefix_nil.mp habove]
  | append_singleton above last ih =>
      by_cases hsettings : HasSettings tree (above ++ [last])
      · exact Or.inl ⟨_, searchUp_of_hasSettings h hsettings, .self hsettings⟩
      rw [searchUp_append_of_not h hsettings]
      rcases ih h.of_append with ⟨root, hfound, hnearest⟩ | ⟨hmissing, hnone⟩
      · exact Or.inl ⟨root, hfound, hnearest.below hsettings⟩
      · refine Or.inr ⟨hmissing, fun other hother => ?_⟩
        rcases List.prefix_concat_iff.mp hother with rfl | habove
        · exact hsettings
        · exact hnone other habove

/-- A search gives a root exactly if it is the nearest. -/
theorem searchUp_eq_ok_iff
    (h : IsSearchable directory) {root : Location} :
    searchUp tree directory.reverse = .ok (pathOf root) ↔ IsNearestRoot tree directory root := by
  rcases searchUp_cases h tree with ⟨found, hfound, hnearest⟩ | ⟨hmissing, hnone⟩
  · rw [hfound]
    constructor
    · intro heq
      obtain rfl : found = root := congrArg Path.names (Except.ok.inj heq)
      exact hnearest
    · intro hroot
      rw [hnearest.unique hroot]
  · rw [hmissing]
    constructor
    · exact nofun
    · exact fun hroot => absurd hroot.hasSettings (hnone root hroot.above)

/-- A search finds no project exactly if no directory on the way has a settings file. -/
theorem searchUp_eq_noProject_iff
    (h : IsSearchable directory) :
    searchUp tree directory.reverse = .error (.settings .noProject) ↔
      ∀ above, above <+: directory → ¬ HasSettings tree above := by
  rcases searchUp_cases h tree with ⟨root, hfound, hnearest⟩ | ⟨hmissing, hnone⟩
  · rw [hfound]
    constructor
    · exact nofun
    · exact fun hnone => absurd hnearest.hasSettings (hnone root hnearest.above)
  · exact iff_of_true hmissing hnone

/-! ## Where the search begins -/

/-- The directory where the search for the root around a path begins: for a file the resolved path
above it, for any other path the resolved path itself. -/
def searchedFrom (tree : FileTree) (cwd : Location) (start : Path) : Location :=
  if (tree.target? cwd start).isSome then (start.parent.resolve (pathOf cwd)).names
  else (start.resolve (pathOf cwd)).names

theorem searchedFrom_eq_resolve_searchStart
    (hlimits : start.WithinLimits) :
    searchedFrom tree cwd start = ((searchStart tree cwd start).resolve (pathOf cwd)).names := by
  obtain ⟨found, hprobe⟩ := exists_probe_of_withinLimits hlimits tree cwd
  rw [searchedFrom, searchStart, isFile_eq, kind?, target?, hprobe]
  rcases found with _ | ⟨location, ⟨bytes⟩ | _⟩ <;> rfl

theorem mem_names_of_mem_searchStart
    {name : String} (h : name ∈ (searchStart tree cwd start).names) :
    name ∈ start.names := by
  rw [searchStart] at h
  split at h
  · exact h
  · exact List.mem_of_mem_dropLast h

theorem hasNull_searchStart
    (hnull : start.hasNull = false) :
    (searchStart tree cwd start).hasNull = false := by
  rw [Path.hasNull_eq_false_iff] at hnull ⊢
  exact fun name hmem => hnull name (mem_names_of_mem_searchStart hmem)

theorem rootOf_eq_searchUp
    (hnull : start.hasNull = false) (hlimits : start.WithinLimits) :
    rootOf tree cwd start = searchUp tree (searchedFrom tree cwd start).reverse := by
  have hresolved : (searchStart tree cwd start).resolved cwd =
      .ok ((searchStart tree cwd start).resolve (pathOf cwd)) := by
    rw [Path.resolved, if_neg (by simp [hasNull_searchStart hnull])]
    rfl
  rw [rootOf, hresolved, searchedFrom_eq_resolve_searchStart hlimits]
  rfl

theorem isSearchable_searchedFrom
    (htree : tree.NullFree) (hcwd : tree.Reaches cwd) (hnull : start.hasNull = false)
    (hlimits : start.WithinLimits) (hfits : Fits (searchedFrom tree cwd start)) :
    IsSearchable (searchedFrom tree cwd start) := by
  have hnames : ∀ name ∈ searchedFrom tree cwd start, name ∈ cwd ∨ name ∈ start.names := by
    intro name hmem
    rw [searchedFrom_eq_resolve_searchStart hlimits] at hmem
    exact (Path.mem_names_of_mem_resolve hmem).imp_right mem_names_of_mem_searchStart
  refine ⟨?_, fun name hmem => ?_, fun name hmem => ?_, hfits⟩
  · rw [searchedFrom_eq_resolve_searchStart hlimits]
    exact Path.dots_not_mem_withoutDots _
  · rcases hnames name hmem with hname | hname
    · exact Path.hasNull_eq_false_iff.mp (htree.hasNull_eq_false hcwd .slash) name hname
    · exact Path.hasNull_eq_false_iff.mp hnull name hname
  · rcases hnames name hmem with hname | hname
    · exact hcwd.name_le name hname
    · exact hlimits.name_le name hname

/-- For a file the search begins in the directory that the file is in. -/
theorem searchedFrom_of_target?
    (hcwd : tree.Reaches cwd) (hdirectory : tree.hasDirectory cwd = true) {location : Location}
    (h : tree.target? cwd start = some location) :
    searchedFrom tree cwd start = location.dropLast := by
  have hwalk := walk_dropLast_of_target? hcwd hdirectory h
  have hparent : FileTree.start cwd start.parent = FileTree.start cwd start := rfl
  rw [searchedFrom, if_pos (by simp [h]), Path.resolve, pathOf, names_join, hparent]
  exact withoutDots_append_of_walk (hcwd.start start) hwalk

/-- For a path that leads to anything else the search begins there. -/
theorem searchedFrom_of_locate
    (hcwd : tree.Reaches cwd) {location : Location} (hfile : tree.target? cwd start = none)
    (h : tree.locate cwd start = .ok location) :
    searchedFrom tree cwd start = location := by
  rw [locate] at h
  split at h
  · cases h
  · rw [searchedFrom, if_neg (by simp [hfile]), Path.resolve, pathOf, names_join]
    exact withoutDots_append_of_walk (hcwd.start start) h

end Project

/-! ## The project around the working directory -/

namespace Command

open FileTree Project

variable {session : Session}

/-- The settings of a directory that has a settings file are read from that file. -/
theorem load_of_hasSettings
    {tree : FileTree} {cwd root : Location} {bytes : ByteArray} (h : IsSearchable root)
    (hsettings : HasSettings tree root)
    (hbytes : tree.bytes? (root ++ [Settings.fileName]) = some bytes) :
    Settings.load tree cwd (pathOf (root ++ [Settings.fileName])) =
      Settings.ofBytes (pathOf (root ++ [Settings.fileName])) bytes := by
  have hread : tree.read cwd (pathOf (root ++ [Settings.fileName])) = .ok bytes := by
    simp only [FileTree.read, h.locate_settings hsettings, bytes?_eq_some_iff.mp hbytes]
  rw [Settings.load, if_neg (by simp [h.hasNull_settings]), hread]

section

variable (htree : session.tree.NullFree) (hcwd : session.tree.Reaches session.cwd)
  (hdirectory : session.tree.hasDirectory session.cwd = true) (hfits : Fits session.cwd)

include htree hcwd hfits

theorem isSearchable_cwd :
    IsSearchable session.cwd := by
  have hnull := htree.hasNull_eq_false hcwd .slash
  exact ⟨hcwd.dots_not_mem, Path.hasNull_eq_false_iff.mp hnull, hcwd.name_le, hfits⟩

include hdirectory

/-- The search around the working directory begins there. -/
theorem rootOf_cwd :
    rootOf session.tree session.cwd (pathOf session.cwd) =
      searchUp session.tree session.cwd.reverse := by
  have hlimits : (pathOf session.cwd).WithinLimits := by
    have hshorter := Path.utf8ByteSize_intercalate_le session.cwd Settings.fileName []
    refine ⟨le_trans ?_ hfits, hcwd.name_le⟩
    rw [Path.utf8ByteSize_text_pathOf, Path.utf8ByteSize_text_pathOf]
    rw [List.append_nil] at hshorter
    exact Nat.add_le_add_left hshorter 1
  have hlocate : session.tree.locate session.cwd (pathOf session.cwd) = .ok session.cwd := by
    rw [locate_of_reaches rfl hcwd, if_neg (Nat.not_lt.mpr hlimits.text_le)]
    rfl
  have hfile : session.tree.target? session.cwd (pathOf session.cwd) = none := by
    rw [Option.eq_none_iff_forall_ne_some]
    intro location htarget
    obtain ⟨bytes, hprobe⟩ := target?_eq_some_iff.mp htarget
    obtain ⟨hfound, hnode⟩ := locate_of_probe hprobe
    obtain rfl : session.cwd = location := Except.ok.inj (hlocate.symm.trans hfound)
    rw [hasDirectory_eq_false_of_file hnode] at hdirectory
    cases hdirectory
  have hnull : (pathOf session.cwd).hasNull = false := htree.hasNull_eq_false hcwd .slash
  rw [rootOf_eq_searchUp hnull hlimits, searchedFrom_of_locate hcwd hfile hlocate]

theorem projectAround_of_isNearestRoot
    {root : Location} {bytes : ByteArray} (hroot : IsNearestRoot session.tree session.cwd root)
    (hbytes : session.tree.bytes? (root ++ [Settings.fileName]) = some bytes) :
    projectAround session =
      ([], (Settings.ofBytes (pathOf (root ++ [Settings.fileName])) bytes).map
        fun settings => { root := pathOf root, settings }) := by
  have hsearchable := isSearchable_cwd htree hcwd hfits
  have hfound : rootOf session.tree session.cwd (pathOf session.cwd) = .ok (pathOf root) := by
    rw [rootOf_cwd htree hcwd hdirectory hfits]
    exact (searchUp_eq_ok_iff hsearchable).mpr hroot
  have hload : Settings.load session.tree session.cwd ((pathOf root).child Settings.fileName) =
      Settings.ofBytes (pathOf (root ++ [Settings.fileName])) bytes :=
    load_of_hasSettings (hsearchable.of_prefix hroot.above) hroot.hasSettings hbytes
  simp only [projectAround, hfound, hload]
  cases Settings.ofBytes (pathOf (root ++ [Settings.fileName])) bytes <;> rfl

theorem projectAround_of_not_hasSettings
    (hnone : ∀ above, above <+: session.cwd → ¬ HasSettings session.tree above) :
    projectAround session =
      ([noProjectNote], .ok { root := pathOf session.cwd, settings := {} }) := by
  have hmissing : rootOf session.tree session.cwd (pathOf session.cwd) =
      .error (.settings .noProject) := by
    rw [rootOf_cwd htree hcwd hdirectory hfits]
    exact (searchUp_eq_noProject_iff (isSearchable_cwd htree hcwd hfits)).mpr hnone
  simp only [projectAround, hmissing]

end

theorem openProject_of_unchosen
    {choice : ProjectChoice} (hconfig : nonEmpty choice.config = none)
    (hroot : nonEmpty choice.root = none) :
    openProject session choice = projectAround session := by
  simp only [openProject, hconfig, hroot]

/-- The root of a project is the nearest directory with a settings file, and there is no project
exactly if there is no such directory.  A command that is told no project has the settings of the
nearest root around the working directory, or default settings at the working directory. -/
theorem projectRoot_nearest_enclosing
    (htree : session.tree.NullFree) (hcwd : session.tree.Reaches session.cwd)
    (hdirectory : session.tree.hasDirectory session.cwd = true) :
    (∀ start : Path, start.hasNull = false → start.WithinLimits →
      Fits (searchedFrom session.tree session.cwd start) →
      ((∃ root, rootOf session.tree session.cwd start = .ok (pathOf root)) ∨
        rootOf session.tree session.cwd start = .error (.settings .noProject)) ∧
      (∀ root, rootOf session.tree session.cwd start = .ok (pathOf root) ↔
        IsNearestRoot session.tree (searchedFrom session.tree session.cwd start) root) ∧
      (rootOf session.tree session.cwd start = .error (.settings .noProject) ↔
        ∀ above, above <+: searchedFrom session.tree session.cwd start →
          ¬ HasSettings session.tree above) ∧
      (∀ location, session.tree.target? session.cwd start = some location →
        searchedFrom session.tree session.cwd start = location.dropLast) ∧
      ∀ location, session.tree.target? session.cwd start = none →
        session.tree.locate session.cwd start = .ok location →
        searchedFrom session.tree session.cwd start = location) ∧
    (Fits session.cwd → ∀ choice : ProjectChoice,
      nonEmpty choice.config = none → nonEmpty choice.root = none →
      (∀ root bytes, IsNearestRoot session.tree session.cwd root →
        session.tree.bytes? (root ++ [Settings.fileName]) = some bytes →
        openProject session choice =
          ([], (Settings.ofBytes (pathOf (root ++ [Settings.fileName])) bytes).map
            fun settings => { root := pathOf root, settings })) ∧
      ((∀ above, above <+: session.cwd → ¬ HasSettings session.tree above) →
        openProject session choice =
          ([noProjectNote], .ok { root := pathOf session.cwd, settings := {} }))) := by
  refine ⟨fun start hnull hlimits hfits => ?_, fun hfits choice hconfig hroot => ?_⟩
  · have hsearchable := isSearchable_searchedFrom htree hcwd hnull hlimits hfits
    rw [rootOf_eq_searchUp hnull hlimits]
    refine ⟨?_, fun root => searchUp_eq_ok_iff hsearchable, searchUp_eq_noProject_iff hsearchable,
      fun location hfile => searchedFrom_of_target? hcwd hdirectory hfile,
      fun location hfile hlocate => searchedFrom_of_locate hcwd hfile hlocate⟩
    rcases searchUp_cases hsearchable session.tree with ⟨root, hfound, -⟩ | ⟨hmissing, -⟩
    · exact Or.inl ⟨root, hfound⟩
    · exact Or.inr hmissing
  · rw [openProject_of_unchosen hconfig hroot]
    exact ⟨fun root bytes hnearest hbytes =>
        projectAround_of_isNearestRoot htree hcwd hdirectory hfits hnearest hbytes,
      fun hnone => projectAround_of_not_hasSettings htree hcwd hdirectory hfits hnone⟩

/-- A folder in a project.  In the folder a directory has the name of the settings file. -/
def crowdedFolder : Session where
  tree :=
    { entries :=
        [(["w"], .directory), (["w", "fubelt.toml"], .file "version=1".toUTF8),
          (["w", "a"], .directory), (["w", "a", "fubelt.toml"], .directory),
          (["w", "a", "page.tpl"], .file ByteArray.empty)] }
  cwd := ["w", "a"]

/-- A page of the folder, by a path that goes up and comes back. -/
def crowdedPage : Path := Path.ofString "../a/./page.tpl"

theorem isNearestRoot_crowdedFolder :
    IsNearestRoot crowdedFolder.tree ["w", "a"] ["w"] := by
  have hroot : HasSettings crowdedFolder.tree ["w"] := isFileAt_iff.mp (by decide +kernel)
  have hfolder : ¬ HasSettings crowdedFolder.tree (["w"] ++ ["a"]) := by
    rw [HasSettings, ← isFileAt_iff]
    decide +kernel
  exact (IsNearestRoot.self hroot).below hfolder

theorem parse_version :
    Toml.parse "version=1".toList = .ok [("version", .integer 1)] := by
  have hkey : Toml.keyAndSign "version=1".toList = .ok (["version"], ['1']) := rfl
  have hvalue : Toml.value (4 * ['1'].length + 4) Toml.depthLimit ['1'] =
      .ok (.integer 1, []) := rfl
  have hstatement : Toml.statement {} "version=1".toList =
      .ok ({ fields := [("version", .integer 1)] }, []) :=
    Toml.statement_of_field rfl hkey hvalue rfl rfl rfl
  have hstatements : Toml.statements 10 {} "version=1".toList =
      .ok { fields := [("version", .integer 1)] } :=
    Toml.statements_of_line rfl (by decide) hstatement rfl rfl 9
  exact Toml.parse_of_statements (p := { fields := [("version", .integer 1)] }) rfl hstatements

theorem projectRoot_nearest_crowdedFolder :
    crowdedFolder.tree.NullFree ∧ crowdedFolder.tree.Reaches crowdedFolder.cwd ∧
      crowdedFolder.tree.hasDirectory crowdedFolder.cwd = true ∧
      crowdedPage.hasNull = false ∧ crowdedPage.WithinLimits ∧
      Fits (searchedFrom crowdedFolder.tree crowdedFolder.cwd crowdedPage) ∧
      Fits crowdedFolder.cwd ∧
      rootOf crowdedFolder.tree crowdedFolder.cwd crowdedPage = .ok (pathOf ["w"]) ∧
      openProject crowdedFolder {} = ([], .ok { root := pathOf ["w"], settings := {} }) := by
  have htree : crowdedFolder.tree.NullFree := by simp [FileTree.NullFree, crowdedFolder]
  have hcwd : crowdedFolder.tree.Reaches crowdedFolder.cwd := by
    rw [Reaches]
    decide +kernel
  have hdirectory : crowdedFolder.tree.hasDirectory crowdedFolder.cwd = true := by decide +kernel
  have hnull : crowdedPage.hasNull = false := by decide +kernel
  have hlimits : crowdedPage.WithinLimits := ⟨by decide +kernel, by decide +kernel⟩
  have hfrom : searchedFrom crowdedFolder.tree crowdedFolder.cwd crowdedPage = ["w", "a"] := by
    decide +kernel
  have hfits : Fits ["w", "a"] := by
    rw [Fits]
    decide +kernel
  obtain ⟨hpage, hopen⟩ := projectRoot_nearest_enclosing htree hcwd hdirectory
  obtain ⟨-, hfound, -⟩ := hpage crowdedPage hnull hlimits (hfrom ▸ hfits)
  obtain ⟨hopen, -⟩ := hopen hfits {} rfl rfl
  refine ⟨htree, hcwd, hdirectory, hnull, hlimits, hfrom ▸ hfits, hfits, ?_, ?_⟩
  · rw [hfound, hfrom]
    exact isNearestRoot_crowdedFolder
  · rw [hopen ["w"] _ isNearestRoot_crowdedFolder rfl]
    have hread : Text.ofUtf8? "version=1".toUTF8 = some "version=1".toList := by decide +kernel
    simp only [Settings.ofBytes, hread, parse_version]
    rfl

end Command
end Reindent
