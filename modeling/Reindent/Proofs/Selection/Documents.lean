import Reindent.Proofs.Document.Access
import Reindent.Proofs.FileTree.Lookup
import Reindent.Proofs.Path.Order
import Reindent.Proofs.Project.Faults
import Reindent.Selection.Search

/-!
# What a search for documents gives

Every path that a search gives is a found document: it is absolute, it has no two dots, and a file
stands there.  Each path is given once.  The paths asked for may overlap, go up and come back, or
name one file in several ways; the walk along them ends at one and the same location.
-/

namespace Reindent

/-! ## Names without null characters -/

/-- No name in the tree has a null character. -/
def FileTree.NullFree (tree : FileTree) : Prop :=
  ∀ entry ∈ tree.entries, ∀ name ∈ entry.1, '\x00' ∉ name.toList

theorem FileTree.NullFree.hasNull_eq_false
    {tree : FileTree} (hnull : tree.NullFree) {location : Location}
    (h : tree.Reaches location) (root : PathRoot) :
    Path.hasNull { root, names := location } = false := by
  by_cases hnil : location = []
  · subst hnil
    rfl
  · obtain ⟨node, hnode⟩ := Option.isSome_iff_exists.mp h.isSome_node?
    have hentry := mem_entries_of_node? hnil hnode
    rw [Path.hasNull, List.any_eq_false]
    intro name hname
    simpa using hnull _ hentry name hname

/-! ## The documents of a search -/

namespace Selection

variable {tree : FileTree} {cwd : Location} {extensions exclude : List String}

theorem reaches_of_documentsAt
    (hcwd : tree.Reaches cwd) {path : Path} {found : List Location}
    (h : documentsAt tree cwd extensions exclude path = .ok found)
    {location : Location} (hlocation : location ∈ found) :
    tree.Reaches location ∧ ∃ bytes, tree.node? location = some (.file bytes) := by
  obtain ⟨probed, hprobe, h⟩ := exists_of_bind_eq_ok h
  have hprobe := eq_ok_of_orCrash hprobe
  match probed, hprobe, h with
  | none, _, h => cases h
  | some (start, .file bytes), hprobe, h =>
      obtain ⟨hlocate, hnode⟩ := FileTree.locate_of_probe hprobe
      have hfound : found = [start] := (Except.ok.inj h).symm
      rw [hfound, List.mem_singleton] at hlocation
      subst hlocation
      exact ⟨hcwd.locate hlocate, bytes, hnode⟩
  | some (start, .directory), hprobe, h =>
      obtain ⟨hlocate, -⟩ := FileTree.locate_of_probe hprobe
      obtain ⟨files, hfiles, h⟩ := exists_of_bind_eq_ok h
      obtain ⟨-, rfl⟩ := (FileTree.search_eq_ok_iff hlocate).mp (eq_ok_of_orCrash hfiles)
      rw [← Except.ok.inj h, List.mem_filter, FileTree.mem_filesBelow_iff] at hlocation
      exact hlocation.1.2

theorem nodup_documents
    {paths docs : List Path} (h : documents tree cwd extensions exclude paths = .ok docs) :
    docs.Nodup := by
  obtain ⟨found, -, h⟩ := exists_of_bind_eq_ok h
  rw [← Except.ok.inj h]
  exact Path.nodup_sorted _

/-- Every path of a search is a found document. -/
theorem isFound_of_mem_documents
    (hnull : tree.NullFree) (hcwd : tree.Reaches cwd)
    {paths docs : List Path} (h : documents tree cwd extensions exclude paths = .ok docs)
    {path : Path} (hpath : path ∈ docs) :
    Document.IsFound tree path := by
  obtain ⟨found, hfound, h⟩ := exists_of_bind_eq_ok h
  rw [← Except.ok.inj h, Path.mem_sorted, List.mem_map] at hpath
  obtain ⟨location, hlocation, rfl⟩ := hpath
  obtain ⟨here, hhere, hmem⟩ := List.mem_flatten.mp hlocation
  obtain ⟨asked, -, hasked⟩ := exists_mem_of_mapM_eq_ok hfound hhere
  obtain ⟨hreaches, hfile⟩ := reaches_of_documentsAt hcwd hasked hmem
  exact ⟨rfl, hreaches, hnull.hasNull_eq_false hreaches _, hfile⟩

theorem sparesDocuments_documents (paths : List Path) :
    SparesDocuments (documents tree cwd extensions exclude paths) := by
  have hstep : ∀ path, SparesDocuments (documentsAt tree cwd extensions exclude path) := by
    intro path
    refine (SparesDocuments.orCrash _).bind fun probed => ?_
    match probed with
    | none => exact SparesDocuments.error nofun
    | some (_, .file _) => exact SparesDocuments.ok _
    | some (_, .directory) =>
        exact (SparesDocuments.orCrash _).bind fun files => SparesDocuments.ok _
  exact (SparesDocuments.mapM hstep paths).bind fun found => SparesDocuments.ok _

end Selection
end Reindent
