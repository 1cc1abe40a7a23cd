import Reindent.Proofs.Layout.Flow

/-!
# The characters of a layout

A layout writes the characters of its text, the newline and those of its unit, and no others.  A
class of characters is carried through the run: if it holds for the unit, for the lines held back
and for the lines to come, it holds for what is written.

The first line is written as it is, without indentation.  So a layout starts with a byte-order mark
only when its first line does, and it never puts a mark before its text.
-/

namespace Reindent

/-- All characters of the lines are in a class. -/
def Text.AllIn (p : Char → Prop) (ls : List Text) : Prop :=
  ∀ l ∈ ls, ∀ c ∈ l, p c

namespace Text

theorem allIn_nil (p : Char → Prop) :
    AllIn p [] :=
  fun _ hl => absurd hl List.not_mem_nil

theorem AllIn.cons
    {p : Char → Prop} {l : Text} {ls : List Text} (hl : ∀ c ∈ l, p c) (h : AllIn p ls) :
    AllIn p (l :: ls) :=
  List.forall_mem_cons.mpr ⟨hl, h⟩

theorem AllIn.append
    {p : Char → Prop} {ls more : List Text} (h : AllIn p ls) (h' : AllIn p more) :
    AllIn p (ls ++ more) := by
  intro l hl
  rcases List.mem_append.mp hl with hl | hl
  · exact h l hl
  · exact h' l hl

theorem mem_unlines
    {c : Char} {ls : List Text} (hc : c ∈ unlines ls) :
    c = '\n' ∨ ∃ l ∈ ls, c ∈ l := by
  induction ls with
  | nil => simp [unlines] at hc
  | cons l ls ih =>
      by_cases hnil : ls = []
      · subst hnil
        exact Or.inr ⟨l, List.mem_cons_self, hc⟩
      · rw [unlines_cons l hnil, List.mem_append, List.mem_cons] at hc
        rcases hc with hc | hc | hc
        · exact Or.inr ⟨l, List.mem_cons_self, hc⟩
        · exact Or.inl hc
        · rcases ih hc with heq | ⟨m, hm, hcm⟩
          · exact Or.inl heq
          · exact Or.inr ⟨m, List.mem_cons_of_mem _ hm, hcm⟩

theorem mem_unlines_of_mem
    {c : Char} {l : Text} {ls : List Text} (hl : l ∈ ls) (hc : c ∈ l) :
    c ∈ unlines ls := by
  induction ls with
  | nil => cases hl
  | cons m ls ih =>
      by_cases hnil : ls = []
      · subst hnil
        rw [List.mem_singleton] at hl
        subst hl
        exact hc
      · rw [unlines_cons m hnil, List.mem_append, List.mem_cons]
        rcases List.mem_cons.mp hl with rfl | hl
        · exact Or.inl hc
        · exact Or.inr (Or.inr (ih hl))

theorem mem_of_mem_lines
    {c : Char} {l t : Text} (hl : l ∈ lines t) (hc : c ∈ l) :
    c ∈ t := by
  rw [← unlines_lines t]
  exact mem_unlines_of_mem hl hc

theorem dropMark_sublist (t : Text) :
    (dropMark t).Sublist t := by
  cases t with
  | nil => exact List.Sublist.refl _
  | cons c cs =>
      rw [dropMark]
      split
      · exact List.sublist_cons_self c cs
      · exact List.Sublist.refl _

theorem eq_or_eq_mark_cons_dropMark (t : Text) :
    t = dropMark t ∨ t = byteOrderMark :: dropMark t := by
  cases t with
  | nil => exact Or.inl rfl
  | cons c cs =>
      rw [dropMark]
      split
      · next hc => exact Or.inr (by rw [hc])
      · exact Or.inl rfl

/-- Joining lines and cutting them again brings no characters in. -/
theorem allIn_lines_unlines
    {p : Char → Prop} {ls : List Text} (h : AllIn p ls) :
    AllIn p (lines (unlines ls)) := by
  intro l hl c hc
  rcases mem_unlines (mem_of_mem_lines hl hc) with rfl | ⟨m, hm, hcm⟩
  · exact absurd hc (newline_not_mem_of_mem_lines hl)
  · exact h m hm c hcm

end Text

namespace Layout

section

variable {p : Char → Prop} {unit : Text} (hunit : ∀ c ∈ unit, p c)
include hunit

theorem allIn_indented
    {line : Text} (hline : ∀ c ∈ line, p c) (level : ℕ) :
    Text.AllIn p [indented unit level line] := by
  refine Text.AllIn.cons ?_ (Text.allIn_nil p)
  intro c hc
  rcases List.mem_append.mp hc with hc | hc
  · exact hunit c (Text.mem_of_mem_repeated hc)
  · exact hline c hc

theorem Block.allIn_writtenFrom
    (block : Block) (base : Int) (level : ℕ) {lines : List Text} (hlines : Text.AllIn p lines) :
    Text.AllIn p (block.writtenFrom unit base level lines) := by
  induction lines generalizing level with
  | nil => exact Text.allIn_nil p
  | cons line rest ih =>
      obtain ⟨hline, hrest⟩ := List.forall_mem_cons.mp hlines
      have htrimmed : ∀ c ∈ Text.trim line, p c :=
        fun c hc => hline c ((Text.trim_sublist line).subset hc)
      simp only [writtenFrom, placedFrom]
      split
      · exact Text.AllIn.cons (fun c hc => absurd hc List.not_mem_nil) (ih level hrest)
      · exact (allIn_indented hunit htrimmed _).append (ih _ hrest)

theorem Block.allIn_bodyLines
    (block : Block) (base : Int) {lines : List Text} (hlines : Text.AllIn p lines) :
    Text.AllIn p (bodyLines (block.body unit base lines)) := by
  intro l hl
  rw [bodyLines, body_eq_unlines] at hl
  exact Text.allIn_lines_unlines (block.allIn_writtenFrom hunit base 0 hlines) l
    (List.mem_filter.mp hl).1

/-- What a line makes a layout write has only characters of the class. -/
theorem State.allIn_emitted
    {st : State} (hheld : ∀ block, Text.AllIn p (st.held block).lines)
    {line : Text} (hline : ∀ c ∈ line, p c) :
    Text.AllIn p (st.emitted unit line) := by
  cases st.turn line with
  | opens block hmarker =>
      simp only [emitted, hmarker]
      exact allIn_indented hunit hline _
  | closes block hmarker =>
      simp only [emitted, hmarker]
      exact (block.allIn_bodyLines hunit _ (hheld block)).append (allIn_indented hunit hline _)
  | held block hmarker hregion =>
      rw [emitted_of_held unit hmarker hregion]
      exact Text.allIn_nil p
  | markup hmarker hregion =>
      simp only [emitted, hmarker, hregion]
      split
      · exact Text.AllIn.cons (fun c hc => absurd hc List.not_mem_nil) (Text.allIn_nil p)
      · exact allIn_indented hunit hline _

omit hunit in
theorem State.allIn_held_next
    {st : State} (hheld : ∀ block, Text.AllIn p (st.held block).lines)
    {line : Text} (hline : ∀ c ∈ line, p c) (block : Block) :
    Text.AllIn p ((st.next line).held block).lines := by
  cases st.turn line with
  | opens opened hmarker =>
      rw [next_of_opens hmarker, held_enter]
      split
      · exact Text.allIn_nil p
      · exact hheld block
  | closes closed hmarker =>
      rw [next_of_closes hmarker, held_leave]
      split
      · exact Text.allIn_nil p
      · exact hheld block
  | held inner hmarker hregion =>
      rw [next_of_held hmarker hregion, held_holdAll]
      split
      · exact (hheld inner).append (Text.AllIn.cons hline (Text.allIn_nil p))
      · exact hheld block
  | markup hmarker hregion =>
      rw [held_next_of_markup hmarker hregion]
      exact hheld block

theorem allIn_run
    {st : State} (hheld : ∀ block, Text.AllIn p (st.held block).lines)
    {lines : List Text} (hlines : Text.AllIn p lines) :
    Text.AllIn p (run unit st lines) := by
  induction lines generalizing st with
  | nil => exact Text.allIn_nil p
  | cons line rest ih =>
      obtain ⟨hline, hrest⟩ := List.forall_mem_cons.mp hlines
      exact (State.allIn_emitted hunit hheld hline).append
        (ih (State.allIn_held_next hheld hline) hrest)

end

theorem mem_of_mem_trimmedLines
    {c : Char} {line text : Text} (hline : line ∈ trimmedLines text) (hc : c ∈ line) :
    c ∈ text := by
  obtain ⟨l, hl, rfl⟩ := List.mem_map.mp hline
  have hmem := Text.mem_of_mem_lines hl ((Text.trim_sublist l).subset hc)
  exact (Text.dropMark_sublist text).subset hmem

/-- A layout brings in no characters but newlines and those of its unit. -/
theorem mem_format
    {c : Char} {unit text : Text} (hc : c ∈ format unit text) :
    c = '\n' ∨ c ∈ unit ∨ c ∈ text := by
  rcases Text.mem_unlines hc with hnewline | ⟨l, hl, hcl⟩
  · exact Or.inl hnewline
  · right
    have hheld : ∀ block, Text.AllIn (fun c => c ∈ unit ∨ c ∈ text)
        (({} : State).held block).lines := by
      intro block l hl
      cases block <;> cases hl
    exact allIn_run (fun c hc => Or.inl hc) hheld
      (fun line hline c hc => Or.inr (mem_of_mem_trimmedLines hline hc)) l hl c hcl

/-! ## The first line -/

theorem indented_zero (unit line : Text) :
    indented unit 0 line = line := by
  rw [indented, Text.repeated_eq, List.replicate_zero, List.flatten_nil, List.nil_append]

theorem Block.bodyLines_body_nil (block : Block) (unit : Text) (base : Int) :
    bodyLines (block.body unit base []) = [] := rfl

/-- The first line of a document is written as it is, whatever the unit. -/
theorem State.emitted_initial (unit line : Text) :
    ({} : State).emitted unit line = [line] := by
  have hplacement : ({} : State).placement line = 0 := by
    rw [State.placement]
    split <;> simp [dedent]
  cases ({} : State).turn line with
  | opens block hmarker => simp only [emitted, hmarker, indented_zero]
  | closes block hmarker =>
      have hheld : ({} : State).held block = {} := by cases block <;> rfl
      simp only [emitted, hmarker, hheld, Block.bodyLines_body_nil, indented_zero,
        List.nil_append]
  | held block hmarker hregion => cases hregion
  | markup hmarker hregion =>
      simp only [emitted, hmarker, hplacement, indented_zero]
      split
      · next hnil => rw [hnil]
      · rfl

theorem exists_lines_format (unit text : Text) :
    ∃ first rest more, trimmedLines text = first :: rest ∧
      (format unit text).lines = first :: more := by
  obtain ⟨first, rest, hcons⟩ := List.exists_cons_of_ne_nil (trimmedLines_ne_nil text)
  have htrimmed : first.IsTrimmed :=
    isTrimmed_of_mem_trimmedLines (hcons ▸ List.mem_cons_self)
  have hrun : run unit {} (trimmedLines text) =
      first :: run unit (({} : State).next first) rest := by
    rw [hcons, run, State.emitted_initial, List.singleton_append]
  rw [format, hrun]
  by_cases hnil : run unit (({} : State).next first) rest = []
  · rw [hnil]
    exact ⟨first, rest, [], hcons, Text.lines_of_newline_not_mem htrimmed.newline_not_mem⟩
  · rw [Text.unlines_cons first hnil, Text.lines_append_newline htrimmed.newline_not_mem]
    exact ⟨first, rest, _, hcons, rfl⟩

/-- A layout starts with a byte-order mark only when its first line does. -/
theorem head?_format_ne_mark
    (unit : Text) {text : Text}
    (hmark : ((trimmedLines text).headD []).head? ≠ some Text.byteOrderMark) :
    (format unit text).head? ≠ some Text.byteOrderMark := by
  intro hhead
  obtain ⟨first, rest, more, hcons, hlines⟩ := exists_lines_format unit text
  obtain ⟨cs, hformat⟩ := List.head?_eq_some_iff.mp hhead
  obtain ⟨l, ls, hcs⟩ := List.exists_cons_of_ne_nil (Text.lines_ne_nil cs)
  rw [hformat, Text.lines_cons_of_ne (by decide) hcs] at hlines
  apply hmark
  rw [hcons, ← (List.cons.inj hlines).1]
  rfl

/-- A layout does not put a byte-order mark before its text. -/
theorem format_ne_mark_cons (unit text : Text) :
    format unit text ≠ Text.byteOrderMark :: text := by
  intro heq
  obtain ⟨first, rest, more, hcons, hlines⟩ := exists_lines_format unit text
  obtain ⟨l, ls, htext⟩ := List.exists_cons_of_ne_nil (Text.lines_ne_nil text)
  rw [heq, Text.lines_cons_of_ne (by decide) htext] at hlines
  have hlonger : l.length < first.length := by
    rw [← (List.cons.inj hlines).1, List.length_cons]
    exact Nat.lt_succ_self _
  -- The first line written is the first line of the text, trimmed, and perhaps without its mark.
  obtain ⟨l', ls', hdropped⟩ := List.exists_cons_of_ne_nil (Text.lines_ne_nil (Text.dropMark text))
  have hfirst : first.length ≤ l'.length := by
    rw [trimmedLines, hdropped, List.map_cons] at hcons
    rw [← (List.cons.inj hcons).1]
    exact (Text.trim_sublist l').length_le
  have hshorter : l'.length ≤ l.length := by
    rcases Text.eq_or_eq_mark_cons_dropMark text with hsame | hmarked
    · rw [hsame, hdropped] at htext
      rw [(List.cons.inj htext).1]
    · rw [hmarked, Text.lines_cons_of_ne (by decide) hdropped] at htext
      rw [← (List.cons.inj htext).1, List.length_cons]
      exact Nat.le_succ _
  omega

end Layout
end Reindent
