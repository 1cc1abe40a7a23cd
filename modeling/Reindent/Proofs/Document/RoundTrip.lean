import Reindent.Proofs.Assist.Mark
import Reindent.Proofs.Document.Access
import Reindent.Proofs.FileTree.Placement
import Reindent.Proofs.Text.Utf8

/-!
# What is written reads back

A text is written as it is and read through a filter, so it reads back without the byte-order mark
it may start with and with plain line ends.  It reads back as itself exactly when there is nothing
for the filter to do.  A file reads as a text exactly when its bytes are well-formed; the start of a
byte-order mark with nothing behind it is the one exception.
-/

namespace Reindent
namespace Text

/-! ## Replacing every occurrence of a text -/

/-- The text with each occurrence of a part replaced, from the left, after passing over `skip`
characters. -/
def replacedFrom (part new : Text) : ℕ → Text → Text
  | _, [] => []
  | skip + 1, _ :: cs => replacedFrom part new skip cs
  | 0, c :: cs =>
    if part.isPrefixOf (c :: cs) then new ++ replacedFrom part new (part.length - 1) cs
    else c :: replacedFrom part new 0 cs

/-- The text with each occurrence of a part replaced, from the left. -/
def replaced (t part new : Text) : Text :=
  replacedFrom part new 0 t

theorem replaced_char_cons (c new d : Char) (t : Text) :
    replaced (d :: t) [c] [new] = (if d = c then new else d) :: replaced t [c] [new] := by
  by_cases hd : d = c
  · subst hd
    simp [replaced, replacedFrom]
  · simp [replaced, replacedFrom, hd, Ne.symm hd]

/-- Making line ends plain replaces each carriage return that has a newline behind it together with
the newline, and then each carriage return that is left. -/
theorem plainLineEnds_eq_replaced (t : Text) :
    plainLineEnds t = (t.replaced ['\r', '\n'] ['\n']).replaced ['\r'] ['\n'] := by
  fun_induction plainLineEnds t with
  | case1 => rfl
  | case2 rest ih =>
      have hpair : replaced ('\r' :: '\n' :: rest) ['\r', '\n'] ['\n'] =
          '\n' :: replaced rest ['\r', '\n'] ['\n'] := by simp [replaced, replacedFrom]
      rw [hpair, replaced_char_cons, ih]
      rfl
  | case3 c rest hpair ih =>
      have hkept : replaced (c :: rest) ['\r', '\n'] ['\n'] =
          c :: replaced rest ['\r', '\n'] ['\n'] := by
        refine if_neg fun hstart => ?_
        obtain ⟨more, hmore⟩ := List.isPrefixOf_iff_prefix.mp hstart
        obtain ⟨rfl, rfl⟩ := List.cons.inj hmore
        exact hpair more rfl rfl
      rw [hkept, replaced_char_cons, ih]

theorem length_plainLineEnds_le (t : Text) :
    (plainLineEnds t).length ≤ t.length := by
  fun_induction plainLineEnds t with
  | case1 => exact le_rfl
  | case2 rest ih =>
      simp only [List.length_cons]
      omega
  | case3 c rest _ ih =>
      simp only [List.length_cons]
      omega

/-! ## What reading leaves as it is -/

/-- A text is read as itself exactly when it starts with no mark and has no carriage return. -/
theorem plainLineEnds_dropMark_eq_self_iff
    {t : Text} :
    plainLineEnds (dropMark t) = t ↔ t.head? ≠ some byteOrderMark ∧ '\r' ∉ t := by
  constructor
  · intro heq
    refine ⟨fun hmark => ?_, ?_⟩
    · -- Nothing makes up for the length of the mark.
      obtain ⟨rest, rfl⟩ := List.head?_eq_some_iff.mp hmark
      have hshort := length_plainLineEnds_le (dropMark (byteOrderMark :: rest))
      rw [heq, dropMark_mark_cons, List.length_cons] at hshort
      omega
    · rw [← heq]
      exact return_not_mem_plainLineEnds _
  · rintro ⟨hmark, hreturn⟩
    rw [dropMark_eq_self hmark, plainLineEnds_eq_self hreturn]

/-! ## Bytes that can be read -/

theorem isPartialMark_iff
    {bytes : ByteArray} :
    isPartialMark bytes = true ↔
      bytes.data.toList = [] ∨ bytes.data.toList = [0xEF] ∨ bytes.data.toList = [0xEF, 0xBB] := by
  rw [isPartialMark, Bool.and_eq_true, decide_eq_true_eq, List.isPrefixOf_iff_prefix,
    ByteArray.toList, toList_loop_eq]
  have hsize : bytes.size = bytes.data.toList.length := rfl
  rw [hsize, List.reverse_nil, List.nil_append, List.drop_zero, markBytes]
  rcases bytes.data.toList with _ | ⟨a, _ | ⟨b, _ | ⟨c, rest⟩⟩⟩
  · simp
  · simp
  · simp
  · refine iff_of_false (fun h => absurd h.1 ?_) (by simp)
    simp only [List.length_cons]
    omega

/-- Bytes other than the start of a mark are a document exactly when they are well-formed. -/
theorem isSome_ofDocument?_iff
    {bytes : ByteArray} (hone : bytes.data.toList ≠ [0xEF])
    (htwo : bytes.data.toList ≠ [0xEF, 0xBB]) :
    (ofDocument? bytes).isSome = true ↔ WellFormed bytes.data.toList := by
  rw [ofDocument?]
  split
  · next hpartial =>
    rcases isPartialMark_iff.mp hpartial with hempty | hpart | hpart
    · rw [hempty]
      exact iff_of_true rfl .nil
    · exact absurd hpart hone
    · exact absurd hpart htwo
  · rw [Option.isSome_map, isSome_ofUtf8?_iff]

end Text

namespace Document

/-- How the bytes of a file are read: as a text exactly when they are well-formed UTF-8, and the
text has no carriage return.  When there is none, the error is that the document is not text, and
formatting the document stops there too, without writing anything. -/
structure ReadAsText (tree : FileTree) (cwd : Location) (path : Path) (bytes : ByteArray) :
    Prop where
  isText_iff : (∃ text, read tree cwd path = .ok text) ↔ Text.WellFormed bytes.data.toList
  return_not_mem : ∀ text, read tree cwd path = .ok text → '\r' ∉ text
  notText : ∀ fault, read tree cwd path = .error fault →
    fault = .document (.notText path) ∧ ∀ how, format tree cwd how path = .error fault

variable {tree : FileTree} {cwd : Location} {path : Path}

theorem readAsText_of_probe
    {location : Location} {bytes : ByteArray}
    (hprobe : tree.probe cwd path = .ok (some (location, .file bytes)))
    (hone : bytes.data.toList ≠ [0xEF]) (htwo : bytes.data.toList ≠ [0xEF, 0xBB]) :
    ReadAsText tree cwd path bytes where
  isText_iff := by
    simp only [read_eq_ok_iff_of_probe hprobe, ← Option.isSome_iff_exists]
    exact Text.isSome_ofDocument?_iff hone htwo
  return_not_mem := by
    intro text hread
    exact Text.return_not_mem_of_ofDocument? ((read_eq_ok_iff_of_probe hprobe).mp hread)
  notText := by
    intro fault hread
    refine ⟨?_, fun how => format_of_read_error hread how⟩
    rw [read_of_probe hprobe] at hread
    split at hread
    · exact (Except.error.inj hread).symm
    · cases hread

/-- A path with a place for a file can be written, and what is written reads back through the
filter. -/
theorem exists_write
    (hplace : tree.HasPlace cwd path) (hnull : path.hasNull = false) (t : Text) :
    ∃ later, write tree cwd path t = .ok later ∧
      read later cwd path = .ok (Text.plainLineEnds (Text.dropMark t)) := by
  obtain ⟨location, hlocation, hprobe⟩ := hplace.probe_put hnull
  refine ⟨tree.put location (.file t.toUtf8), ?_, ?_⟩
  · rw [write, if_neg (by simp [hnull]), FileTree.write, hlocation]
  · exact (read_eq_ok_iff_of_probe (hprobe t.toUtf8)).mpr (Text.ofDocument?_toUtf8 t)

theorem hasNull_eq_false_of_write
    {t : Text} {later : FileTree} (h : write tree cwd path t = .ok later) :
    path.hasNull = false := by
  rw [write] at h
  split at h
  · cases h
  · next hnull => simpa using hnull

/-- Reading and writing, at every path.

At a path with a place for a file any text can be written, unless the name has a null character, as
no file's name has.  What has been written reads back without a byte-order mark at its front, with
each carriage return and newline replaced by a newline, and each carriage return that is left
replaced by a newline.  So a text reads back as itself exactly when it has none of these.  A path
that names a file is read as its bytes say, unless they are only the start of a byte-order mark. -/
theorem reads_back_as_written (tree : FileTree) (cwd : Location) (path : Path) :
    (tree.HasPlace cwd path → ∀ t : Text,
      (path.hasNull = false → ∃ later, write tree cwd path t = .ok later) ∧
      ∀ later, write tree cwd path t = .ok later →
        read later cwd path =
          .ok (((Text.dropMark t).replaced ['\r', '\n'] ['\n']).replaced ['\r'] ['\n']) ∧
        (read later cwd path = .ok t ↔ t.head? ≠ some Text.byteOrderMark ∧ '\r' ∉ t)) ∧
    ∀ (location : Location) (bytes : ByteArray),
      tree.probe cwd path = .ok (some (location, .file bytes)) →
      bytes.data.toList ≠ [0xEF] → bytes.data.toList ≠ [0xEF, 0xBB] →
        ReadAsText tree cwd path bytes := by
  refine ⟨fun hplace t => ⟨fun hnull => ?_, fun later hwrite => ?_⟩, ?_⟩
  · obtain ⟨later, hlater, -⟩ := exists_write hplace hnull t
    exact ⟨later, hlater⟩
  · obtain ⟨later', hlater', hread⟩ := exists_write hplace (hasNull_eq_false_of_write hwrite) t
    obtain rfl : later' = later := Except.ok.inj (hlater'.symm.trans hwrite)
    rw [hread, ← Text.plainLineEnds_eq_replaced]
    refine ⟨rfl, ?_⟩
    rw [Except.ok.injEq]
    exact Text.plainLineEnds_dropMark_eq_self_iff
  · exact fun location bytes hprobe hone htwo => readAsText_of_probe hprobe hone htwo

/-- A directory with one file, whose last two bytes are a null character in a form that is too
long. -/
def drawer : FileTree where
  entries := [(["w"], .directory), (["w", "bad.fubelt"], .file ⟨#[0x3C, 0xC0, 0x80]⟩)]

theorem reads_back_as_written_drawer :
    drawer.HasPlace ["w"] (Path.ofString "new.fubelt") ∧
      (∃ later, write drawer ["w"] (Path.ofString "new.fubelt") "\uFEFFa\r\nb\rc\uFEFF".toList =
          .ok later ∧
        read later ["w"] (Path.ofString "new.fubelt") = .ok "a\nb\nc\uFEFF".toList) ∧
      ¬ Text.WellFormed [0x3C, 0xC0, 0x80] ∧
      read drawer ["w"] (Path.ofString "bad.fubelt") =
        .error (.document (.notText (Path.ofString "bad.fubelt"))) := by
  have hplace : drawer.HasPlace ["w"] (Path.ofString "new.fubelt") :=
    ⟨by decide +kernel, by decide +kernel, by decide +kernel, by decide +kernel⟩
  have hprobe : drawer.probe ["w"] (Path.ofString "bad.fubelt") =
      .ok (some (["w", "bad.fubelt"], .file ⟨#[0x3C, 0xC0, 0x80]⟩)) :=
    FileTree.probe_eq_some_iff.mpr ⟨by decide +kernel, by decide +kernel, rfl⟩
  have hbad : ¬ Text.WellFormed [0x3C, 0xC0, 0x80] := by
    have hnone : (Text.ofUtf8? ⟨#[0x3C, 0xC0, 0x80]⟩).isSome = false := by decide +kernel
    intro hformed
    rw [(Text.isSome_ofUtf8?_iff ⟨#[0x3C, 0xC0, 0x80]⟩).mpr hformed] at hnone
    cases hnone
  refine ⟨hplace, ?_, hbad, ?_⟩
  · obtain ⟨hexists, hback⟩ := (reads_back_as_written drawer ["w"] (Path.ofString "new.fubelt")).1
      hplace "\uFEFFa\r\nb\rc\uFEFF".toList
    obtain ⟨later, hlater⟩ := hexists (by decide +kernel)
    refine ⟨later, hlater, (hback later hlater).1.trans (congrArg Except.ok ?_)⟩
    decide +kernel
  · obtain ⟨hiff, -, hfails⟩ :=
      (reads_back_as_written drawer ["w"] (Path.ofString "bad.fubelt")).2 _ _ hprobe
        (by decide) (by decide)
    cases hread : read drawer ["w"] (Path.ofString "bad.fubelt") with
    | error fault => rw [(hfails fault hread).1]
    | ok text => exact absurd (hiff.mp ⟨text, hread⟩) hbad

end Document
end Reindent
