import Reindent.Document.File
import Reindent.Proofs.FileTree.Lookup

/-!
# Documents that a search has found

A found document is an absolute path without two dots at which a file stands.  What it reads as
depends only on the bytes at its own location, so writing one document does not change what another
one reads as.  A failure to read a found document is an error of the document and never a crash, and
a document that was read can be written back.
-/

namespace Reindent
namespace Document

/-! ## Any path that names a file -/

section

variable {tree : FileTree} {cwd location : Location} {path : Path} {bytes : ByteArray}
  (h : tree.probe cwd path = .ok (some (location, .file bytes)))
include h

/-- A path that names a file reads as the bytes of the file say. -/
theorem read_of_probe :
    read tree cwd path =
      match Text.ofDocument? bytes with
      | none => .error (.document (.notText path))
      | some text => .ok text := by
  obtain ⟨hnull, hlocate, hnode⟩ := FileTree.probe_eq_some_iff.mp h
  have hread : tree.read cwd path = .ok bytes := by
    rw [FileTree.read, hlocate]
    simp only [hnode]
  rw [read, if_neg (by simp [hnull])]
  cases hdecoded : Text.ofDocument? bytes with
  | none => simp [hread, hdecoded]
  | some text => simp [hread, hdecoded]

theorem read_eq_ok_iff_of_probe
    {text : Text} :
    read tree cwd path = .ok text ↔ Text.ofDocument? bytes = some text := by
  rw [read_of_probe h]
  cases Text.ofDocument? bytes <;> simp

theorem exists_read_eq_error_iff_of_probe :
    (∃ cause, read tree cwd path = .error (.document cause)) ↔ Text.ofDocument? bytes = none := by
  rw [read_of_probe h]
  cases Text.ofDocument? bytes <;> simp

theorem write_of_probe (new : Text) :
    write tree cwd path new = .ok (tree.put location (.file new.toUtf8)) := by
  obtain ⟨hnull, hlocate, hnode⟩ := FileTree.probe_eq_some_iff.mp h
  have hplace : tree.place cwd path = .ok location := by
    simp [FileTree.place, hlocate, FileTree.hasDirectory, hnode]
  rw [write, if_neg (by simp [hnull]), FileTree.write, hplace]

end

/-- A path that can be read names a file. -/
theorem exists_probe_of_read
    {tree : FileTree} {cwd : Location} {path : Path} {text : Text}
    (h : read tree cwd path = .ok text) :
    ∃ location bytes, tree.probe cwd path = .ok (some (location, .file bytes)) := by
  rw [read] at h
  split at h
  · cases h
  · next hnull =>
    rw [FileTree.read] at h
    cases hlocate : tree.locate cwd path with
    | error e => simp [hlocate] at h
    | ok location =>
        rcases hnode : tree.node? location with _ | ⟨bytes⟩ | _
        · simp [hlocate, hnode] at h
        · exact ⟨location, bytes,
            FileTree.probe_eq_some_iff.mpr ⟨by simpa using hnull, hlocate, hnode⟩⟩
        · simp [hlocate, hnode] at h

/-! ## Found documents -/

/-- A path as a search gives it: absolute, and its own names lead to a file. -/
structure IsFound (tree : FileTree) (path : Path) : Prop where
  root_eq : path.root = .slash
  reaches : tree.Reaches path.names
  hasNull_eq : path.hasNull = false
  exists_file : ∃ bytes, tree.node? path.names = some (.file bytes)

namespace IsFound

variable {tree : FileTree} {path : Path}

theorem isResolved
    (h : IsFound tree path) :
    path.IsResolved :=
  ⟨h.root_eq, h.reaches.dots_not_mem⟩

theorem eq_of_names_eq
    {other : Path} (h : IsFound tree path) (hother : IsFound tree other)
    (hnames : path.names = other.names) :
    path = other :=
  h.isResolved.eq_of_names_eq hother.isResolved hnames

theorem overwritten
    (h : IsFound tree path) {location : Location} {old : ByteArray}
    (hold : tree.node? location = some (.file old)) (bytes : ByteArray) :
    IsFound (tree.put location (.file bytes)) path := by
  have hshape := FileTree.sameShape_overwritten hold bytes
  exact ⟨h.root_eq, (hshape.reaches_iff _).mpr h.reaches, h.hasNull_eq,
    (hshape.exists_file_iff _).mpr h.exists_file⟩

/-! ## Reading -/

/-- A path that is too long cannot be opened; any other one reads as its bytes say. -/
theorem read_eq
    (h : IsFound tree path) (cwd : Location) {bytes : ByteArray}
    (hbytes : tree.node? path.names = some (.file bytes)) :
    read tree cwd path =
      if FileTree.pathLimit < path.text.utf8ByteSize then
        .error (.document (.notRead path .nameTooLong))
      else
        match Text.ofDocument? bytes with
        | none => .error (.document (.notText path))
        | some text => .ok text := by
  have hnull : ¬ path.hasNull = true := by simp [h.hasNull_eq]
  rw [read, if_neg hnull, FileTree.read, FileTree.locate_of_reaches h.root_eq h.reaches]
  by_cases hlong : FileTree.pathLimit < path.text.utf8ByteSize
  · rw [if_pos hlong, if_pos hlong]
  · cases hdecoded : Text.ofDocument? bytes with
    | none => simp [hlong, hbytes, hdecoded]
    | some text => simp [hlong, hbytes, hdecoded]

theorem read_congr
    {later : FileTree} (h : IsFound tree path) (hlater : IsFound later path) (cwd : Location)
    (hnode : later.node? path.names = tree.node? path.names) :
    read later cwd path = read tree cwd path := by
  obtain ⟨bytes, hbytes⟩ := h.exists_file
  rw [h.read_eq cwd hbytes, hlater.read_eq cwd (hnode.trans hbytes)]

theorem eq_document_of_read
    (h : IsFound tree path) {cwd : Location} {fault : Fault}
    (hread : read tree cwd path = .error fault) :
    ∃ cause, fault = .document cause := by
  obtain ⟨bytes, hbytes⟩ := h.exists_file
  rw [h.read_eq cwd hbytes] at hread
  split at hread
  · exact ⟨_, (Except.error.inj hread).symm⟩
  · split at hread
    · exact ⟨_, (Except.error.inj hread).symm⟩
    · cases hread

theorem exists_bytes_of_read
    (h : IsFound tree path) {cwd : Location} {text : Text}
    (hread : read tree cwd path = .ok text) :
    path.text.utf8ByteSize ≤ FileTree.pathLimit ∧
      ∃ bytes, tree.node? path.names = some (.file bytes) ∧ Text.ofDocument? bytes = some text := by
  obtain ⟨bytes, hbytes⟩ := h.exists_file
  rw [h.read_eq cwd hbytes] at hread
  split at hread
  · cases hread
  · next hshort =>
    refine ⟨Nat.le_of_not_lt hshort, bytes, hbytes, ?_⟩
    split at hread
    · cases hread
    · next t ht => rw [ht, Except.ok.inj hread]

/-- A document that was read is named by its path. -/
theorem probe_of_read
    (h : IsFound tree path) {cwd : Location} {text : Text}
    (hread : read tree cwd path = .ok text) :
    ∃ bytes, tree.probe cwd path = .ok (some (path.names, .file bytes)) := by
  obtain ⟨hshort, bytes, hbytes, -⟩ := h.exists_bytes_of_read hread
  refine ⟨bytes, FileTree.probe_eq_some_iff.mpr ⟨h.hasNull_eq, ?_, hbytes⟩⟩
  rw [FileTree.locate_of_reaches h.root_eq h.reaches, if_neg (Nat.not_lt.mpr hshort)]

end IsFound

/-! ## Formatting -/

/-- A text of a document beside its formatted text. -/
def compared (how : Formatting) (path : Path) (text : Text) : Comparison :=
  { path, before := text, formatted := Assist.formatText how.unit how.range text }

theorem format_of_read_error
    {tree : FileTree} {cwd : Location} {path : Path} {fault : Fault}
    (hread : read tree cwd path = .error fault) (how : Formatting) :
    format tree cwd how path = .error fault := by
  rw [format, compare, hread]
  rfl

/-- A document that is read is written back at the location that its path leads to. -/
theorem format_of_probe
    {tree : FileTree} {cwd location : Location} {path : Path} {bytes : ByteArray}
    (h : tree.probe cwd path = .ok (some (location, .file bytes))) {text : Text}
    (hread : read tree cwd path = .ok text) (how : Formatting) :
    format tree cwd how path =
      .ok (compared how path text,
        if (compared how path text).changed && how.write then
          tree.put location (.file (compared how path text).formatted.toUtf8)
        else tree) := by
  have hcompare : compare tree cwd how path = .ok (compared how path text) := by
    rw [compare, hread]
    rfl
  rw [format, hcompare]
  show (if (compared how path text).changed && how.write then _ else _) = _
  split
  · rw [write_of_probe h]
    rfl
  · rfl

theorem format_of_read_ok
    {tree : FileTree} {path : Path} (h : IsFound tree path) {cwd : Location} {text : Text}
    (hread : read tree cwd path = .ok text) (how : Formatting) :
    format tree cwd how path =
      .ok (compared how path text,
        if (compared how path text).changed && how.write then
          tree.put path.names (.file (compared how path text).formatted.toUtf8)
        else tree) := by
  obtain ⟨bytes, hprobe⟩ := h.probe_of_read hread
  exact format_of_probe hprobe hread how

end Document
end Reindent
