import Reindent.Project.Load
import Reindent.Proofs.FileTree.Lookup
import Reindent.Proofs.Selection.Documents

/-!
# Which documents a search gives

A search is told by three things: all the paths asked for are there and can be searched, the
documents are strictly increasing, and a path is among them exactly when it is a document of one of
the paths asked for.  Nothing else counts, so the paths asked for, the suffixes and the patterns can
be listed in any order and more than once.
-/

namespace Reindent

theorem Path.below?_eq_some_iff
    {path ancestor below : Path} :
    path.below? ancestor = some below ↔
      path.root = ancestor.root ∧ ancestor.names <+: path.names ∧
        below = { root := .none, names := path.names.drop ancestor.names.length } := by
  rw [Path.below?, Option.ite_none_right_eq_some, Bool.and_eq_true, decide_eq_true_eq,
    List.isPrefixOf_iff_prefix, Option.some.injEq, and_assoc, eq_comm (b := below)]

/-- A path has the suffix of what leads to it from an ancestor. -/
theorem Path.suffix_below
    {path : Path} {ancestor : Location} (hbelow : ancestor <+: path.names)
    (hne : ancestor ≠ path.names) :
    Path.suffix { root := .none, names := path.names.drop ancestor.length } = path.suffix := by
  have hlonger : ¬ path.names.length ≤ ancestor.length :=
    fun hle => hne (hbelow.eq_of_length_le hle)
  simp [Path.suffix, Path.name, List.getLast?_drop, hlonger]

namespace Selection

variable {tree : FileTree} {cwd : Location} {extensions exclude : List String} {root path : Path}

/-- A path is a document of a path asked for: it is the file that is asked for, or a file below the
directory that is asked for, with the suffix of a document, in no directory of a tool, and not
excluded. -/
inductive IsDocumentOf (tree : FileTree) (cwd : Location) (extensions exclude : List String)
    (root path : Path) : Prop where
  | file (hroot : tree.isFile cwd root = .ok true) (hpath : root.resolved cwd = .ok path)
  | below {directory below : Path} (hroot : tree.isDirectory cwd root = .ok true)
    (hdirectory : root.resolved cwd = .ok directory) (hbelow : path.below? directory = some below)
    (hfile : tree.HasFile path.names) (hsuffix : path.suffix ∈ extensions)
    (htools : ∀ name ∈ below.names.dropLast, name ∉ toolDirectories)
    (hkept : isExcluded exclude below.text = false)

theorem isSkipped_eq_false_iff
    (hroot : path.root = .none) :
    isSkipped exclude path = false ↔
      (∀ name ∈ path.names.dropLast, name ∉ toolDirectories) ∧
        isExcluded exclude path.text = false := by
  simp [isSkipped, Path.components, hroot]

theorem hasSuffix_iff :
    hasSuffix extensions path = true ↔ path.suffix ∈ extensions := by
  rw [hasSuffix, List.contains_iff_mem]

/-! ## One path -/

theorem documentsAt_of_none
    (h : tree.probe cwd root = .ok none) :
    documentsAt tree cwd extensions exclude root = .error (.noSuchPath root) := by
  rw [documentsAt, h]
  rfl

theorem documentsAt_of_error
    {cause : Crash} (h : tree.probe cwd root = .error cause) :
    documentsAt tree cwd extensions exclude root = .error (.crash cause) := by
  rw [documentsAt, h]
  rfl

/-- A file stands for itself. -/
theorem documentsAt_of_file
    (hstart : tree.Reaches (FileTree.start cwd root)) {location : Location} {bytes : ByteArray}
    (h : tree.probe cwd root = .ok (some (location, .file bytes))) :
    documentsAt tree cwd extensions exclude root = .ok [location] ∧
      ∀ path, path ∈ [location].map Project.pathOf ↔
        IsDocumentOf tree cwd extensions exclude root path := by
  obtain ⟨hnull, hlocate, -⟩ := FileTree.probe_eq_some_iff.mp h
  have hresolved := FileTree.resolved_of_locate hstart hnull hlocate
  refine ⟨by rw [documentsAt, h]; rfl, fun path => ?_⟩
  rw [List.map_singleton, List.mem_singleton]
  constructor
  · rintro rfl
    exact .file (FileTree.isFile_eq_true_iff.mpr ⟨location, bytes, h⟩) hresolved
  · rintro (⟨-, hpath⟩ | ⟨hroot, -, -, -, -, -, -⟩)
    · exact Except.ok.inj (hpath.symm.trans hresolved)
    · obtain ⟨other, hother⟩ := FileTree.isDirectory_eq_true_iff.mp hroot
      rw [h] at hother
      cases hother

theorem documentsAt_of_search
    {location : Location} (h : tree.probe cwd root = .ok (some (location, .directory))) :
    documentsAt tree cwd extensions exclude root =
      (orCrash (tree.search root location)).map
        (List.filter (isDocumentBelow extensions exclude location)) := by
  rw [documentsAt, h]
  cases hsearch : tree.search root location <;>
    simp [orCrash, Except.mapError, bind, Except.bind, pure, Except.pure, Except.map, hsearch]

/-- A directory that can be searched stands for the documents below it. -/
theorem documentsAt_of_directory
    (hstart : tree.Reaches (FileTree.start cwd root)) {location : Location}
    (h : tree.probe cwd root = .ok (some (location, .directory)))
    (hsearch : tree.Searchable cwd root) :
    ∃ found, documentsAt tree cwd extensions exclude root = .ok found ∧
      ∀ path, path ∈ found.map Project.pathOf ↔
        IsDocumentOf tree cwd extensions exclude root path := by
  obtain ⟨hnull, hlocate, hnode⟩ := FileTree.probe_eq_some_iff.mp h
  have hresolved := FileTree.resolved_of_locate hstart hnull hlocate
  have hfiles := (FileTree.search_eq_ok_iff hlocate).mpr ⟨hsearch, rfl⟩
  refine ⟨_, by rw [documentsAt_of_search h, hfiles]; rfl, fun path => ?_⟩
  -- A file below the directory is not the directory itself.
  have hne : tree.HasFile path.names → location ≠ path.names := by
    rintro ⟨-, bytes, hbytes⟩ rfl
    rw [hnode] at hbytes
    cases hbytes
  simp only [List.mem_map, List.mem_filter, FileTree.mem_filesBelow_iff, isDocumentBelow,
    Bool.and_eq_true, Bool.not_eq_true', isSkipped_eq_false_iff, hasSuffix_iff]
  constructor
  · rintro ⟨other, ⟨⟨hbelow, hfile⟩, hsuffix, htools, hkept⟩, rfl⟩
    refine .below (FileTree.isDirectory_eq_true_iff.mpr ⟨location, h⟩) hresolved
      (Path.below?_eq_some_iff.mpr ⟨rfl, hbelow, rfl⟩) hfile ?_ htools hkept
    rwa [← Path.suffix_below hbelow (hne hfile)]
  · rintro (⟨hroot, -⟩ | ⟨-, hdirectory, hbelow, hfile, hsuffix, htools, hkept⟩)
    · obtain ⟨other, bytes, hother⟩ := FileTree.isFile_eq_true_iff.mp hroot
      rw [h] at hother
      cases hother
    · cases hresolved.symm.trans hdirectory
      obtain ⟨hslash, hnames, rfl⟩ := Path.below?_eq_some_iff.mp hbelow
      refine ⟨path.names, ⟨⟨hnames, hfile⟩, ?_, htools, hkept⟩, ?_⟩
      · rwa [Path.suffix_below hnames (hne hfile)]
      · rw [Project.pathOf, ← show path.root = .slash from hslash]

/-- A path that is there and can be searched stands for its documents. -/
theorem exists_documentsAt
    (hstart : tree.Reaches (FileTree.start cwd root)) (h : tree.isPresent cwd root = .ok true)
    (hsearch : tree.Searchable cwd root) :
    ∃ found, documentsAt tree cwd extensions exclude root = .ok found ∧
      ∀ path, path ∈ found.map Project.pathOf ↔
        IsDocumentOf tree cwd extensions exclude root path := by
  rcases FileTree.isPresent_eq_true_iff.mp h with hfile | hdirectory
  · obtain ⟨location, bytes, hprobe⟩ := FileTree.isFile_eq_true_iff.mp hfile
    exact ⟨[location], documentsAt_of_file hstart hprobe⟩
  · obtain ⟨location, hprobe⟩ := FileTree.isDirectory_eq_true_iff.mp hdirectory
    exact documentsAt_of_directory hstart hprobe hsearch

theorem isPresent_of_documentsAt
    {found : List Location} (h : documentsAt tree cwd extensions exclude root = .ok found) :
    tree.isPresent cwd root = .ok true := by
  rcases hprobe : tree.probe cwd root with cause | _ | ⟨location, node⟩
  · rw [documentsAt_of_error hprobe] at h
    cases h
  · rw [documentsAt_of_none hprobe] at h
    cases h
  · rw [FileTree.isPresent, hprobe]
    rfl

/-- Only a path that can be searched stands for documents. -/
theorem searchable_of_documentsAt
    {found : List Location} (h : documentsAt tree cwd extensions exclude root = .ok found) :
    tree.Searchable cwd root := by
  rcases FileTree.isPresent_eq_true_iff.mp (isPresent_of_documentsAt h) with hfile | hdirectory
  · obtain ⟨location, bytes, hprobe⟩ := FileTree.isFile_eq_true_iff.mp hfile
    exact FileTree.searchable_of_file hprobe
  · obtain ⟨location, hprobe⟩ := FileTree.isDirectory_eq_true_iff.mp hdirectory
    obtain ⟨-, hlocate, -⟩ := FileTree.probe_eq_some_iff.mp hprobe
    rw [documentsAt_of_search hprobe] at h
    cases hfiles : tree.search root location with
    | error cause =>
        rw [hfiles] at h
        cases h
    | ok files => exact ((FileTree.search_eq_ok_iff hlocate).mp hfiles).1

theorem searchable_of_isOk
    (h : (documentsAt tree cwd extensions exclude root).isOk = true) :
    tree.Searchable cwd root := by
  cases hfound : documentsAt tree cwd extensions exclude root with
  | error fault =>
      rw [hfound] at h
      cases h
  | ok found => exact searchable_of_documentsAt hfound

/-- A path within the limits that can be searched fails only when it names nothing. -/
theorem missing_of_documentsAt
    (hstart : tree.Reaches (FileTree.start cwd root)) (hlimits : root.WithinLimits)
    (hsearch : tree.Searchable cwd root) {fault : Fault}
    (h : documentsAt tree cwd extensions exclude root = .error fault) :
    fault = .noSuchPath root ∧ tree.isFile cwd root = .ok false ∧
      tree.isDirectory cwd root = .ok false := by
  obtain ⟨probed, hprobe⟩ := FileTree.exists_probe_of_withinLimits hlimits tree cwd
  cases probed with
  | none =>
      rw [documentsAt_of_none hprobe] at h
      exact ⟨(Except.error.inj h).symm, FileTree.probe_eq_none_iff.mp hprobe⟩
  | some found =>
      have hpresent : tree.isPresent cwd root = .ok true := by
        rw [FileTree.isPresent, hprobe]
        rfl
      obtain ⟨here, hhere, -⟩ := exists_documentsAt hstart hpresent hsearch
      cases h.symm.trans hhere

/-! ## All paths -/

/-- A search fails as it does for one of the paths asked for. -/
theorem exists_documentsAt_eq_error
    {roots : List Path} {fault : Fault}
    (h : documents tree cwd extensions exclude roots = .error fault) :
    ∃ root ∈ roots, documentsAt tree cwd extensions exclude root = .error fault := by
  rcases error_cases_of_bind h with hfound | ⟨found, -, h⟩
  · exact exists_mem_of_mapM_eq_error hfound
  · cases h

/-- A file asked for alone is the one document. -/
theorem documents_of_file
    {location : Location} {bytes : ByteArray}
    (h : tree.probe cwd root = .ok (some (location, .file bytes)))
    (extensions exclude : List String) :
    documents tree cwd extensions exclude [root] = .ok [Project.pathOf location] := by
  have hfound : [root].mapM (documentsAt tree cwd extensions exclude) = .ok [[location]] := by
    rw [List.mapM_cons, documentsAt, h]
    rfl
  have hsorted : Path.sorted [Project.pathOf location] = [Project.pathOf location] :=
    List.mergeSort_singleton _
  rw [documents, hfound]
  exact congrArg Except.ok hsorted

section

variable {roots docs : List Path}
  (hstart : ∀ root ∈ roots, tree.Reaches (FileTree.start cwd root))
include hstart

theorem spec_of_documents
    (h : documents tree cwd extensions exclude roots = .ok docs) :
    (∀ root ∈ roots, tree.isPresent cwd root = .ok true ∧ tree.Searchable cwd root) ∧
      docs.Pairwise Path.Before ∧
      ∀ path, path ∈ docs ↔
        ∃ root ∈ roots, IsDocumentOf tree cwd extensions exclude root path := by
  obtain ⟨found, hfound, h⟩ := exists_of_bind_eq_ok h
  have hthere : ∀ root ∈ roots, tree.isPresent cwd root = .ok true ∧ tree.Searchable cwd root := by
    intro root hroot
    obtain ⟨here, -, hhere⟩ := exists_mem_mapM_of_mem hfound hroot
    exact ⟨isPresent_of_documentsAt hhere, searchable_of_documentsAt hhere⟩
  -- What a step of the search gives for a path are its documents.
  have hstep : ∀ root ∈ roots, ∀ here, documentsAt tree cwd extensions exclude root = .ok here →
      ∀ path, path ∈ here.map Project.pathOf ↔
        IsDocumentOf tree cwd extensions exclude root path := by
    intro root hroot here hhere
    obtain ⟨hpresent, hsearch⟩ := hthere root hroot
    obtain ⟨other, hother, hmem⟩ := exists_documentsAt (hstart root hroot) hpresent hsearch
    cases hhere.symm.trans hother
    exact hmem
  rw [← Except.ok.inj h]
  refine ⟨hthere, ?_, fun path => ?_⟩
  · refine Path.pairwise_before_sorted .slash ?_
    intro path hpath
    obtain ⟨location, -, rfl⟩ := List.mem_map.mp hpath
    rfl
  · rw [Path.mem_sorted, List.map_flatten, List.mem_flatten]
    constructor
    · rintro ⟨paths, hpaths, hpath⟩
      obtain ⟨here, hhere, rfl⟩ := List.mem_map.mp hpaths
      obtain ⟨root, hroot, hgives⟩ := exists_mem_of_mapM_eq_ok hfound hhere
      exact ⟨root, hroot, (hstep root hroot here hgives path).mp hpath⟩
    · rintro ⟨root, hroot, hdocument⟩
      obtain ⟨here, hhere, hgives⟩ := exists_mem_mapM_of_mem hfound hroot
      exact ⟨_, List.mem_map.mpr ⟨here, hhere, rfl⟩,
        (hstep root hroot here hgives path).mpr hdocument⟩

theorem exists_documents
    (hthere : ∀ root ∈ roots, tree.isPresent cwd root = .ok true ∧ tree.Searchable cwd root) :
    ∃ docs, documents tree cwd extensions exclude roots = .ok docs := by
  cases h : documents tree cwd extensions exclude roots with
  | ok docs => exact ⟨docs, rfl⟩
  | error fault =>
      obtain ⟨root, hroot, hfails⟩ := exists_documentsAt_eq_error h
      obtain ⟨hpresent, hsearch⟩ := hthere root hroot
      obtain ⟨here, hhere, -⟩ := exists_documentsAt (hstart root hroot) hpresent hsearch
      cases hfails.symm.trans hhere

/-- The documents of a search are determined by what is among them. -/
theorem documents_eq_ok_iff :
    documents tree cwd extensions exclude roots = .ok docs ↔
      (∀ root ∈ roots, tree.isPresent cwd root = .ok true ∧ tree.Searchable cwd root) ∧
        docs.Pairwise Path.Before ∧
        ∀ path, path ∈ docs ↔
          ∃ root ∈ roots, IsDocumentOf tree cwd extensions exclude root path := by
  constructor
  · exact spec_of_documents hstart
  · rintro ⟨hthere, hincreasing, hmem⟩
    obtain ⟨found, hfound⟩ := exists_documents hstart hthere
    obtain ⟨-, hfoundIncreasing, hfoundMem⟩ := spec_of_documents hstart hfound
    have hsame : found = docs := hfoundIncreasing.eq_of_mem_iff hincreasing
      fun path => (hfoundMem path).trans (hmem path).symm
    rw [hfound, hsame]

end

/-- What makes a path a document is how the tree is shaped, not what its files hold. -/
theorem isDocumentOf_iff_of_sameShape
    {later : FileTree} (h : tree.SameShape later) :
    IsDocumentOf later cwd extensions exclude root path ↔
      IsDocumentOf tree cwd extensions exclude root path := by
  constructor
  · rintro (⟨hroot, hpath⟩ | ⟨hroot, hdirectory, hbelow, hfile, hsuffix, htools, hkept⟩)
    · exact .file (h.isFile_eq cwd root ▸ hroot) hpath
    · exact .below (h.isDirectory_eq cwd root ▸ hroot) hdirectory hbelow
        ((h.hasFile_iff _).mp hfile) hsuffix htools hkept
  · rintro (⟨hroot, hpath⟩ | ⟨hroot, hdirectory, hbelow, hfile, hsuffix, htools, hkept⟩)
    · exact .file ((h.isFile_eq cwd root).trans hroot) hpath
    · exact .below ((h.isDirectory_eq cwd root).trans hroot) hdirectory hbelow
        ((h.hasFile_iff _).mpr hfile) hsuffix htools hkept

/-- Of a tree, a search sees no more than the shape. -/
theorem documents_of_sameShape
    {later : FileTree} (h : tree.SameShape later) (hcwd : tree.Reaches cwd) {roots docs : List Path}
    (hdocs : documents tree cwd extensions exclude roots = .ok docs) :
    documents later cwd extensions exclude roots = .ok docs := by
  have hlater : later.Reaches cwd := (h.reaches_iff cwd).mpr hcwd
  obtain ⟨hthere, hincreasing, hmem⟩ := spec_of_documents (fun root _ => hcwd.start root) hdocs
  rw [documents_eq_ok_iff fun root _ => hlater.start root]
  refine ⟨?_, hincreasing, ?_⟩
  · intro root hroot
    rw [h.isPresent_eq, h.searchable_iff]
    exact hthere root hroot
  · intro path
    rw [hmem]
    simp only [isDocumentOf_iff_of_sameShape h]

/-- More suffixes and fewer patterns keep a document. -/
theorem IsDocumentOf.mono
    {extensions' exclude' : List String}
    (h : IsDocumentOf tree cwd extensions exclude root path)
    (hextensions : ∀ e ∈ extensions, e ∈ extensions') (hexclude : ∀ p ∈ exclude', p ∈ exclude) :
    IsDocumentOf tree cwd extensions' exclude' root path := by
  cases h with
  | file hroot hpath => exact .file hroot hpath
  | below hroot hdirectory hbelow hfile hsuffix htools hkept =>
      refine .below hroot hdirectory hbelow hfile (hextensions _ hsuffix) htools ?_
      rw [isExcluded, List.any_eq_false] at hkept ⊢
      exact fun pattern hpattern => hkept pattern (hexclude pattern hpattern)

section

variable (hcwd : tree.Reaches cwd) {roots : List Path} (hlimits : ∀ root ∈ roots, root.WithinLimits)
  (hsearch : ∀ root ∈ roots, tree.Searchable cwd root)
include hcwd hlimits hsearch

/-- A search of paths within the limits fails for the lack of one of them and for nothing else. -/
theorem missing_of_documents
    {fault : Fault} (h : documents tree cwd extensions exclude roots = .error fault) :
    ∃ root ∈ roots, fault = .noSuchPath root ∧ tree.isFile cwd root = .ok false ∧
      tree.isDirectory cwd root = .ok false := by
  obtain ⟨root, hroot, hfails⟩ := exists_documentsAt_eq_error h
  exact ⟨root, hroot, missing_of_documentsAt (hcwd.start root) (hlimits root hroot)
    (hsearch root hroot) hfails⟩

/-- The search fails for the lack of a path when one of the paths asked for names neither a file
nor a directory. -/
theorem exists_noSuchPath_iff :
    (∃ root, documents tree cwd extensions exclude roots = .error (.noSuchPath root)) ↔
      ∃ root ∈ roots, tree.isFile cwd root = .ok false ∧ tree.isDirectory cwd root = .ok false := by
  constructor
  · rintro ⟨missing, h⟩
    obtain ⟨root, hroot, -, hmissing⟩ := missing_of_documents hcwd hlimits hsearch h
    exact ⟨root, hroot, hmissing⟩
  · rintro ⟨root, hroot, hmissing⟩
    cases h : documents tree cwd extensions exclude roots with
    | ok docs =>
        obtain ⟨hthere, -⟩ := spec_of_documents (fun root _ => hcwd.start root) h
        have hpresent := (hthere root hroot).1
        rw [FileTree.isPresent, FileTree.probe_eq_none_iff.mpr hmissing] at hpresent
        cases hpresent
    | error fault =>
        obtain ⟨missing, -, rfl, -⟩ := missing_of_documents hcwd hlimits hsearch h
        exact ⟨missing, rfl⟩

theorem exists_documents_of_present
    (hpresent : ¬ ∃ root ∈ roots,
      tree.isFile cwd root = .ok false ∧ tree.isDirectory cwd root = .ok false) :
    ∃ docs, documents tree cwd extensions exclude roots = .ok docs := by
  cases h : documents tree cwd extensions exclude roots with
  | ok docs => exact ⟨docs, rfl⟩
  | error fault =>
      obtain ⟨root, hroot, -, hmissing⟩ := missing_of_documents hcwd hlimits hsearch h
      exact absurd ⟨root, hroot, hmissing⟩ hpresent

end

/-- A search from an existing working directory for paths within the limits, below which nothing
goes beyond them.  It fails for the lack of a path exactly when one of them names neither a file nor
a directory.  Otherwise it gives a list that is strictly increasing and has the documents of the
paths asked for, no more and no fewer; and it gives the same list however these paths, the suffixes
and the patterns are listed. -/
theorem documents_exact
    (hcwd : tree.Reaches cwd) (roots : List Path) (hlimits : ∀ root ∈ roots, root.WithinLimits)
    (hsearch : ∀ root ∈ roots, tree.Searchable cwd root) (extensions exclude : List String) :
    ((∃ root, documents tree cwd extensions exclude roots = .error (.noSuchPath root)) ↔
      ∃ root ∈ roots, tree.isFile cwd root = .ok false ∧ tree.isDirectory cwd root = .ok false) ∧
    ((¬ ∃ root ∈ roots, tree.isFile cwd root = .ok false ∧ tree.isDirectory cwd root = .ok false) →
      ∃ docs, documents tree cwd extensions exclude roots = .ok docs ∧
        docs.Pairwise Path.Before ∧ docs.Nodup ∧
        (∀ path, path ∈ docs ↔
          ∃ root ∈ roots, IsDocumentOf tree cwd extensions exclude root path) ∧
        ∀ (roots' : List Path) (extensions' exclude' : List String),
          (∀ root, root ∈ roots' ↔ root ∈ roots) → (∀ e, e ∈ extensions' ↔ e ∈ extensions) →
          (∀ p, p ∈ exclude' ↔ p ∈ exclude) →
          documents tree cwd extensions' exclude' roots' = .ok docs) := by
  refine ⟨exists_noSuchPath_iff hcwd hlimits hsearch, fun hpresent => ?_⟩
  obtain ⟨docs, hdocs⟩ := exists_documents_of_present hcwd hlimits hsearch hpresent
  obtain ⟨hthere, hincreasing, hmem⟩ := spec_of_documents (fun root _ => hcwd.start root) hdocs
  refine ⟨docs, hdocs, hincreasing, hincreasing.nodup, hmem, ?_⟩
  intro roots' extensions' exclude' hroots hextensions hexclude
  refine (documents_eq_ok_iff fun root _ => hcwd.start root).mpr ⟨?_, hincreasing, ?_⟩
  · exact fun root hroot => hthere root ((hroots root).mp hroot)
  · intro path
    rw [hmem]
    constructor
    · rintro ⟨root, hroot, hdocument⟩
      exact ⟨root, (hroots root).mpr hroot,
        hdocument.mono (fun e => (hextensions e).mpr) fun p => (hexclude p).mp⟩
    · rintro ⟨root, hroot, hdocument⟩
      exact ⟨root, (hroots root).mp hroot,
        hdocument.mono (fun e => (hextensions e).mp) fun p => (hexclude p).mpr⟩

/-- A directory with a page, a text, and a page among the files of a tool. -/
def shelf : FileTree where
  entries := [
    (["w"], .directory),
    (["w", "notes.txt"], .file ByteArray.empty),
    (["w", "node_modules"], .directory),
    (["w", "node_modules", "b.fubelt"], .file ByteArray.empty),
    (["w", "a.fubelt"], .file ByteArray.empty)]

/-- Paths that overlap, one of them twice. -/
def shelfPaths : List Path :=
  ["node_modules", ".", "notes.txt", "../w/notes.txt"].map Path.ofString

theorem documents_exact_shelf :
    shelf.Reaches ["w"] ∧ (∀ root ∈ shelfPaths, root.WithinLimits) ∧
      (∀ root ∈ shelfPaths, shelf.Searchable ["w"] root) ∧
      ∃ docs, documents shelf ["w"] [".fubelt"] ["node_modules/*"] shelfPaths = .ok docs ∧
        documents shelf ["w"] [".fubelt"] ["node_modules/*"] (shelfPaths.reverse ++ shelfPaths) =
          .ok docs ∧
        Project.pathOf ["w", "node_modules", "b.fubelt"] ∈ docs ∧
        Project.pathOf ["w", "notes.txt"] ∈ docs := by
  have hcwd : shelf.Reaches ["w"] := by
    rw [FileTree.Reaches]
    decide +kernel
  have hlimits : ∀ root ∈ shelfPaths, root.WithinLimits := by
    intro root hroot
    have htext : ∀ root ∈ shelfPaths, root.text.utf8ByteSize ≤ FileTree.pathLimit := by
      decide +kernel
    have hnames : ∀ root ∈ shelfPaths, ∀ name ∈ root.names,
        name.utf8ByteSize ≤ FileTree.nameLimit := by decide +kernel
    exact ⟨htext root hroot, hnames root hroot⟩
  have hsearch : ∀ root ∈ shelfPaths, shelf.Searchable ["w"] root := by
    have hfound : ∀ root ∈ shelfPaths, (documentsAt shelf ["w"] [] [] root).isOk = true := by
      decide +kernel
    exact fun root hroot => searchable_of_isOk (hfound root hroot)
  have hpresent : ¬ ∃ root ∈ shelfPaths,
      shelf.isFile ["w"] root = .ok false ∧ shelf.isDirectory ["w"] root = .ok false := by
    decide +kernel
  obtain ⟨docs, hdocs, -, -, hmem, hsame⟩ :=
    (documents_exact hcwd shelfPaths hlimits hsearch [".fubelt"] ["node_modules/*"]).2 hpresent
  refine ⟨hcwd, hlimits, hsearch, docs, hdocs, ?_, ?_, ?_⟩
  · exact hsame _ _ _ (fun root => by simp) (fun _ => Iff.rfl) fun _ => Iff.rfl
  · have htool : Path.ofString "node_modules" ∈ shelfPaths := by decide +kernel
    have hfile : shelf.HasFile ["w", "node_modules", "b.fubelt"] :=
      FileTree.isFileAt_iff.mp (by decide +kernel)
    exact (hmem _).mpr ⟨_, htool, .below (by decide +kernel) rfl rfl hfile (by decide +kernel)
      (by decide +kernel) (by decide +kernel)⟩
  · have htext : Path.ofString "../w/notes.txt" ∈ shelfPaths := by decide +kernel
    exact (hmem _).mpr ⟨_, htext, .file (by decide +kernel) rfl⟩

end Selection
end Reindent
