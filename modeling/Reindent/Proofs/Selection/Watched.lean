import Reindent.Proofs.Selection.Membership
import Reindent.Selection.Change

/-!
# Watching and searching

A watch tests each changed file against each watched path; a search goes down from each path.  For
watched paths that are there and can be searched, and for changed files that are there, the two
agree: a file is kept by the watch when it has the suffix of a document and the search for the
watched paths gives it.

What ties the two together is that only directories lie on the way to a file.  So a watched path
above a changed file is a directory, and a search of it looks at the file.
-/

namespace Reindent
namespace Selection

variable {tree : FileTree} {cwd : Location} {extensions exclude : List String} {root path : Path}

/-- A path as a watch keeps it: resolved, and naming a file or a directory. -/
structure IsWatchable (tree : FileTree) (cwd : Location) (root : Path) : Prop where
  resolved_eq : root.resolved cwd = .ok root
  isPresent_eq : tree.isPresent cwd root = .ok true

/-- A changed file as a watch is told of it: absolute, without two dots, and still there. -/
structure IsChangedFile (tree : FileTree) (cwd : Location) (path : Path) : Prop where
  isAbsolute_eq : path.isAbsolute = true
  dots_not_mem : ".." ∉ path.names
  isFile_eq : tree.isFile cwd path = .ok true

theorem IsWatchable.isAbsolute
    (h : IsWatchable tree cwd root) :
    root.isAbsolute = true := by
  have hroot := (Path.isResolved_of_resolved h.resolved_eq).root_eq
  simp [Path.isAbsolute, hroot]

theorem IsChangedFile.hasFile
    (h : IsChangedFile tree cwd path) :
    tree.HasFile path.names := by
  obtain ⟨location, bytes, hprobe⟩ := FileTree.isFile_eq_true_iff.mp h.isFile_eq
  obtain ⟨-, hlocate, -⟩ := FileTree.probe_eq_some_iff.mp hprobe
  have hstart : tree.Reaches (FileTree.start cwd path) := by
    rw [FileTree.start_of_isAbsolute h.isAbsolute_eq]
    exact tree.reaches_nil
  rw [← FileTree.eq_names_of_locate h.isAbsolute_eq h.dots_not_mem hlocate]
  exact FileTree.hasFile_of_probe hstart hprobe

/-- A watched path is a changed file below it, or a directory. -/
theorem IsWatchable.eq_or_isDirectory
    (hroot : IsWatchable tree cwd root) (hpath : IsChangedFile tree cwd path) {below : Path}
    (hbelow : path.below? root = some below) :
    path = root ∨ tree.isDirectory cwd root = .ok true := by
  rcases FileTree.isPresent_eq_true_iff.mp hroot.isPresent_eq with hfile | hdirectory
  · left
    obtain ⟨location, bytes, hprobe⟩ := FileTree.isFile_eq_true_iff.mp hfile
    obtain ⟨-, hlocate, hnode⟩ := FileTree.probe_eq_some_iff.mp hprobe
    have hdots := (Path.isResolved_of_resolved hroot.resolved_eq).dots_not_mem
    rw [FileTree.eq_names_of_locate hroot.isAbsolute hdots hlocate] at hnode
    obtain ⟨hsame, ⟨rest, hrest⟩, -⟩ := Path.below?_eq_some_iff.mp hbelow
    cases rest with
    | nil =>
        obtain ⟨pathRoot, names⟩ := path
        obtain ⟨rootRoot, names'⟩ := root
        rw [List.append_nil] at hrest
        exact congrArg₂ Path.mk hsame hrest.symm
    | cons name rest =>
        have hreaches := hpath.hasFile.1
        rw [← hrest] at hreaches
        have hdirectory := hreaches.hasDirectory
        rw [FileTree.hasDirectory, hnode] at hdirectory
        cases hdirectory
  · exact Or.inr hdirectory

/-- The watch keeps a changed file when it has the suffix of a document and is a document of one of
the watched paths. -/
theorem isWatched_iff
    {roots : List Path} (hroots : ∀ root ∈ roots, IsWatchable tree cwd root)
    (hpath : IsChangedFile tree cwd path) :
    isWatched roots extensions exclude path = true ↔
      path.suffix ∈ extensions ∧
        ∃ root ∈ roots, IsDocumentOf tree cwd extensions exclude root path := by
  rw [isWatched, Bool.and_eq_true, hasSuffix_iff, and_congr_right_iff]
  intro hsuffix
  rw [Bool.or_eq_true, List.contains_iff_mem, List.any_eq_true]
  have hself : path ∈ roots → IsDocumentOf tree cwd extensions exclude path path :=
    fun hmem => .file hpath.isFile_eq (hroots path hmem).resolved_eq
  constructor
  · rintro (hmem | ⟨root, hroot, hbelow⟩)
    · exact ⟨path, hmem, hself hmem⟩
    · split at hbelow
      · next below hsome =>
        have hslash : below.root = .none := by
          obtain ⟨-, -, rfl⟩ := Path.below?_eq_some_iff.mp hsome
          rfl
        rw [Bool.not_eq_true', isSkipped_eq_false_iff hslash] at hbelow
        rcases (hroots root hroot).eq_or_isDirectory hpath hsome with rfl | hdirectory
        · exact ⟨path, hroot, hself hroot⟩
        · exact ⟨root, hroot, .below hdirectory (hroots root hroot).resolved_eq hsome
            hpath.hasFile hsuffix hbelow.1 hbelow.2⟩
      · cases hbelow
  · rintro ⟨root, hroot, hdocument⟩
    have hresolved := (hroots root hroot).resolved_eq
    rcases hdocument with ⟨-, hnamed⟩ | ⟨-, hdirectory, hbelow, -, -, htools, hkept⟩
    · left
      rwa [Except.ok.inj (hnamed.symm.trans hresolved)]
    · right
      cases hresolved.symm.trans hdirectory
      have hslash := (Path.below?_eq_some_iff.mp hbelow).2.2
      refine ⟨root, hroot, ?_⟩
      simp only [hbelow, Bool.not_eq_true']
      exact (isSkipped_eq_false_iff (by rw [hslash])).mpr ⟨htools, hkept⟩

/-- A watch and a search select the same documents.  The watched paths are resolved and there, no
path below them is too long, and the changed files are given by absolute paths without two dots.
The search of the watched paths succeeds, and the watch keeps the changed files that the search
gives and that have the suffix of a document; only a watched path that is itself a file can lack
it. -/
theorem mem_ofChanges_iff_mem_documents
    (roots : List Path) (hroots : ∀ root ∈ roots, IsWatchable tree cwd root)
    (hsearch : ∀ root ∈ roots, tree.Searchable cwd root) (extensions exclude : List String)
    (changed : List Path) (hchanged : ∀ path ∈ changed, IsChangedFile tree cwd path) :
    ∃ docs, documents tree cwd extensions exclude roots = .ok docs ∧
      (∀ path, path ∈ ofChanges roots extensions exclude changed ↔
        path ∈ changed ∧ path ∈ docs ∧ path.suffix ∈ extensions) ∧
      ∀ path ∈ docs, path.suffix ∉ extensions →
        path ∈ roots ∧ tree.isFile cwd path = .ok true := by
  have hstart : ∀ root ∈ roots, tree.Reaches (FileTree.start cwd root) := by
    intro root hroot
    rw [FileTree.start_of_isAbsolute (hroots root hroot).isAbsolute]
    exact tree.reaches_nil
  obtain ⟨docs, hdocs⟩ := exists_documents hstart fun root hroot =>
    ⟨(hroots root hroot).isPresent_eq, hsearch root hroot⟩
  obtain ⟨-, -, hmem⟩ := spec_of_documents hstart hdocs
  refine ⟨docs, hdocs, ?_, ?_⟩
  · intro path
    rw [ofChanges, Path.mem_sorted, List.mem_filter, and_congr_right_iff]
    intro hpath
    rw [isWatched_iff hroots (hchanged path hpath), hmem, and_comm]
  · intro path hpath hsuffix
    obtain ⟨root, hroot, hdocument⟩ := (hmem path).mp hpath
    rcases hdocument with ⟨hfile, hnamed⟩ | ⟨-, -, -, -, hhas, -, -⟩
    · rw [Except.ok.inj (hnamed.symm.trans (hroots root hroot).resolved_eq)]
      exact ⟨hroot, hfile⟩
    · exact absurd hhas hsuffix

/-- Watched paths that overlap: a directory, one inside it, and a file. -/
def shelfWatched : List Path :=
  [["w"], ["w", "node_modules"], ["w", "notes.txt"], ["w"]].map Project.pathOf

/-- The files of the shelf, all changed. -/
def shelfChanged : List Path :=
  [["w", "a.fubelt"], ["w", "notes.txt"], ["w", "node_modules", "b.fubelt"]].map Project.pathOf

theorem mem_ofChanges_shelf :
    (∀ root ∈ shelfWatched, IsWatchable shelf [] root) ∧
      (∀ root ∈ shelfWatched, shelf.Searchable [] root) ∧
      (∀ path ∈ shelfChanged, IsChangedFile shelf [] path) ∧
      ∃ docs, documents shelf [] [".fubelt"] ["a*"] shelfWatched = .ok docs ∧
        Project.pathOf ["w", "node_modules", "b.fubelt"] ∈ docs ∧
        Project.pathOf ["w", "a.fubelt"] ∉ docs ∧
        Project.pathOf ["w", "notes.txt"] ∉
          ofChanges shelfWatched [".fubelt"] ["a*"] shelfChanged := by
  have hroots : ∀ root ∈ shelfWatched, IsWatchable shelf [] root := by
    have hresolved : ∀ root ∈ shelfWatched, root.resolved [] = .ok root := by decide +kernel
    have hpresent : ∀ root ∈ shelfWatched, shelf.isPresent [] root = .ok true := by decide +kernel
    exact fun root hroot => ⟨hresolved root hroot, hpresent root hroot⟩
  have hsearch : ∀ root ∈ shelfWatched, shelf.Searchable [] root := by
    have hfound : ∀ root ∈ shelfWatched, (documentsAt shelf [] [] [] root).isOk = true := by
      decide +kernel
    exact fun root hroot => searchable_of_isOk (hfound root hroot)
  have hchanged : ∀ path ∈ shelfChanged, IsChangedFile shelf [] path := by
    have habsolute : ∀ path ∈ shelfChanged, path.isAbsolute = true := by decide +kernel
    have hdots : ∀ path ∈ shelfChanged, ".." ∉ path.names := by decide +kernel
    have hfile : ∀ path ∈ shelfChanged, shelf.isFile [] path = .ok true := by decide +kernel
    exact fun path hpath => ⟨habsolute path hpath, hdots path hpath, hfile path hpath⟩
  obtain ⟨docs, hdocs, hmem, -⟩ :=
    mem_ofChanges_iff_mem_documents shelfWatched hroots hsearch [".fubelt"] ["a*"] shelfChanged
      hchanged
  have hkept : ∀ path, path ∈ ofChanges shelfWatched [".fubelt"] ["a*"] shelfChanged ↔
      path ∈ shelfChanged.filter (isWatched shelfWatched [".fubelt"] ["a*"]) :=
    fun path => Path.mem_sorted
  refine ⟨hroots, hsearch, hchanged, docs, hdocs, ?_, ?_, ?_⟩
  · exact ((hmem _).mp ((hkept _).mpr (by decide +kernel))).2.1
  · intro hdocument
    have hwatched := (hmem _).mpr ⟨by decide +kernel, hdocument, by decide +kernel⟩
    exact absurd ((hkept _).mp hwatched) (by decide +kernel)
  · rw [hkept]
    decide +kernel

end Selection
end Reindent
