import Reindent.Proofs.Layout.Characters

/-!
# Statements inside and outside a script

A statement line is placed by one rule in a script and in the markup, as long as no tag has been
met there: a line that starts with a closing bracket goes one level back, and then the line moves
the level by its brackets.  The markup asks several tests first, and a line can pass more of them
than one.  Whatever else a statement looks like, it starts with a letter, an underscore, a dollar
sign or a closing brace, so it is no marker and not like a tag, and then it is taken for a statement
before anything else is asked.
-/

namespace Reindent

namespace Line

/-- A line that starts otherwise than with an identifier or a closing brace is no statement. -/
theorem isStatement_cons_eq_false
    {c : Char} (hstart : isIdentifierStart c = false) (hbrace : c ≠ '\x7d') (rest : Text) :
    isStatement (c :: rest) = false := by
  have hfirst : ∀ word : Text, word.head?.any isIdentifierStart = true →
      word.isPrefixOf (c :: rest) = false := by
    intro word hword
    cases word with
    | nil => cases hword
    | cons d word =>
        have hne : d ≠ c := by
          rintro rfl
          exact Bool.false_ne_true (hstart.symm.trans hword)
        simp [List.isPrefixOf, hne]
  have hwords : statementWords.any (·.isPrefixOf (c :: rest)) = false := by
    have hletters : ∀ word ∈ statementWords, word.head?.any isIdentifierStart = true := by decide
    rw [List.any_eq_false]
    intro word hword
    rw [hfirst word (hletters word hword)]
    exact Bool.false_ne_true
  have hreturn : startsReturn (c :: rest) = false := by
    rw [startsReturn, hfirst "return".toList rfl, Bool.false_and]
  have hend : startsBlockEnd (c :: rest) = false := by
    unfold startsBlockEnd
    split
    · next heq => exact absurd (List.cons.inj heq).1 hbrace
    · rfl
  have huse : startsUse (c :: rest) = false := by
    simp [startsUse, hstart]
  rw [isStatement, hwords, hreturn, hend, huse]
  rfl

theorem ne_nil_of_isStatement
    {line : Text} (hline : isStatement line = true) :
    line ≠ [] := by
  rintro rfl
  exact absurd hline (by decide)

/-- The characters that start no statement. -/
theorem head?_ne_of_isStatement
    {line : Text} (hline : isStatement line = true) {c : Char}
    (hstart : isIdentifierStart c = false) (hbrace : c ≠ '\x7d') :
    line.head? ≠ some c := by
  cases line with
  | nil => simp
  | cons d rest =>
      rintro heq
      obtain rfl : d = c := Option.some.inj heq
      rw [isStatement_cons_eq_false hstart hbrace] at hline
      cases hline

theorem isTagLike_of_isStatement
    {line : Text} (hline : isStatement line = true) :
    isTagLike line = false := by
  have hhead := head?_ne_of_isStatement hline (show isIdentifierStart '<' = false from rfl)
    (by decide)
  cases line with
  | nil => rfl
  | cons c rest =>
      have hc : '<' ≠ c := fun heq => hhead (by rw [heq]; rfl)
      simp [isTagLike, startsTag, startsClosingTag, hc]

/-- Before a tag-like line has been met, no other kind takes a statement away. -/
theorem kind_of_isStatement
    {line : Text} (hline : isStatement line = true) :
    kind false line = .statement := by
  simp [kind, hline, isTagLike_of_isStatement hline]

/-- The line is blank or reads as a statement, once it has been trimmed. -/
def IsCode (line : Text) : Prop :=
  Text.trim line = [] ∨ isStatement (Text.trim line) = true

instance decidableIsCode : DecidablePred IsCode := fun line =>
  inferInstanceAs (Decidable (Text.trim line = [] ∨ isStatement (Text.trim line) = true))

end Line

namespace Layout

theorem marker?_of_isStatement
    {line : Text} (hline : Line.isStatement line = true) :
    marker? line = none := by
  have hhead := Line.head?_ne_of_isStatement hline
    (show Line.isIdentifierStart '<' = false from rfl) (by decide)
  have hne : ∀ rest, line ≠ '<' :: rest := by
    rintro rest rfl
    exact hhead rfl
  simp [marker?, hne]

namespace State

section

variable {st : State} (hregion : st.region = .markup) (htag : st.tagSeen = false)
variable {line : Text} (hline : Line.isStatement line = true)
include htag hline

theorem placement_of_isStatement :
    st.placement line = Block.script.placement st.level line := by
  simp only [placement, htag, Line.kind_of_isStatement hline]
  rfl

theorem levelAfter_of_isStatement :
    st.levelAfter line = Block.script.levelAfter st.level line := by
  simp only [levelAfter, htag, Line.kind_of_isStatement hline,
    placement_of_isStatement htag hline]
  rfl

include hregion

/-- A statement in the markup moves the level as it does in a script, and nothing else. -/
theorem next_of_isStatement :
    st.next line = { st with level := Block.script.levelAfter st.level line } := by
  simp only [next, marker?_of_isStatement hline, hregion, if_neg (Line.ne_nil_of_isStatement hline),
    levelAfter_of_isStatement htag hline, htag, Line.isTagLike_of_isStatement hline, Bool.or_self]

theorem emitted_of_isStatement (unit : Text) :
    st.emitted unit line = [indented unit (Block.script.placement st.level line) line] := by
  simp only [emitted, marker?_of_isStatement hline, hregion,
    if_neg (Line.ne_nil_of_isStatement hline), placement_of_isStatement htag hline]

end

theorem next_nil_of_markup
    {st : State} (hregion : st.region = .markup) :
    st.next [] = st := by
  simp [next, marker?_nil, hregion]

theorem emitted_nil_of_markup
    {st : State} (hregion : st.region = .markup) (unit : Text) :
    st.emitted unit [] = [[]] := by
  simp [emitted, marker?_nil, hregion]

end State

/-- Statements and blank lines in the markup are written as in a script that has the same level, and
the level is all that they change. -/
theorem run_of_isStatement
    (unit : Text) {code : List Text}
    (hcode : ∀ line ∈ code, line.IsTrimmed ∧ (line = [] ∨ Line.isStatement line = true))
    {st : State} (hregion : st.region = .markup) (htag : st.tagSeen = false) :
    run unit st code = Block.script.writtenFrom unit 0 st.level code ∧
      ∃ level, st.after code = { st with level } := by
  induction code generalizing st with
  | nil => exact ⟨rfl, st.level, rfl⟩
  | cons line rest ih =>
      obtain ⟨⟨htrimmed, hline⟩, hrest⟩ := List.forall_mem_cons.mp hcode
      rcases hline with rfl | hline
      · obtain ⟨hrun, hafter⟩ := ih hrest hregion htag
        rw [run, State.emitted_nil_of_markup hregion, State.after_cons,
          State.next_nil_of_markup hregion, hrun, Block.writtenFrom_nil_cons]
        exact ⟨rfl, hafter⟩
      · -- Both counters go to the same level behind the line.
        obtain ⟨hrun, level, hafter⟩ :=
          @ih hrest { st with level := Block.script.levelAfter st.level line } hregion htag
        rw [run, State.emitted_of_isStatement hregion htag hline, State.after_cons,
          State.next_of_isStatement hregion htag hline, hrun, hafter,
          Block.writtenFrom_cons _ _ _ _ htrimmed (Line.ne_nil_of_isStatement hline), Int.zero_add,
          Int.toNat_natCast]
        exact ⟨rfl, level, rfl⟩

theorem not_isCode_mark_cons (rest : Text) :
    ¬ Line.IsCode (Text.byteOrderMark :: rest) := by
  rw [Line.IsCode, Text.trim_cons_of_not_blank (by decide),
    Line.isStatement_cons_eq_false (by decide) (by decide)]
  simp

/-- Code does not start with a byte-order mark, so none is dropped. -/
theorem trimmedLines_unlines
    {lines : List Text} (hne : lines ≠ []) (hnewline : ∀ line ∈ lines, '\n' ∉ line)
    (hcode : ∀ line ∈ lines, Line.IsCode line) :
    trimmedLines (Text.unlines lines) = lines.map Text.trim := by
  have hlines := Text.lines_unlines hne hnewline
  rcases Text.eq_or_eq_mark_cons_dropMark (Text.unlines lines) with hkept | hmark
  · rw [trimmedLines, ← hkept, hlines]
  · obtain ⟨first, rest, hcons⟩ :=
      List.exists_cons_of_ne_nil (Text.lines_ne_nil (Text.dropMark (Text.unlines lines)))
    rw [hmark, Text.lines_cons_of_ne (by decide) hcons] at hlines
    have hfirst := hcode (Text.byteOrderMark :: first) (hlines ▸ List.mem_cons_self)
    exact absurd hfirst (not_isCode_mark_cons first)

theorem writtenFrom_ne_nil
    {lines : List Text} (hne : lines ≠ []) (block : Block) (unit : Text) (base : Int) (level : ℕ) :
    block.writtenFrom unit base level lines ≠ [] := by
  obtain ⟨line, rest, rfl⟩ := List.exists_cons_of_ne_nil hne
  simp only [Block.writtenFrom, Block.placedFrom]
  split <;> simp

theorem lines_body
    {unit : Text} (hunit : '\n' ∉ unit) (block : Block) (base : Int) {lines : List Text}
    (hne : lines ≠ []) (hnewline : ∀ line ∈ lines, '\n' ∉ line) :
    (block.body unit base lines).lines = block.writtenFrom unit base 0 lines := by
  have hplain : Text.AllIn (fun c => c ≠ '\n') (block.writtenFrom unit base 0 lines) := by
    refine Block.allIn_writtenFrom ?_ block base 0 ?_
    · rintro c hc rfl
      exact hunit hc
    · rintro line hline c hc rfl
      exact hnewline line hline hc
  apply Text.lines_unlines (writtenFrom_ne_nil hne block unit base 0)
  intro line hline hmem
  exact hplain line hline _ hmem rfl

/-- Lines that are blank or read as statements are laid out the same inside and outside a script.
A text of such lines is laid out as the body of a script at level zero.  The same lines are written
from every state in the markup at level zero in which no tag has been met, and behind them only the
level of that state has changed. -/
theorem format_unlines_eq_script_body
    {unit : Text} (hunit : '\n' ∉ unit) {lines : List Text}
    (hnewline : ∀ line ∈ lines, '\n' ∉ line) (hcode : ∀ line ∈ lines, Line.IsCode line) :
    format unit (Text.unlines lines) = Block.script.body unit 0 lines ∧
      ∀ st : State, st.region = .markup → st.tagSeen = false → st.level = 0 →
        (lines ≠ [] →
          run unit st (lines.map Text.trim) = (Block.script.body unit 0 lines).lines) ∧
        ∃ level, st.after (lines.map Text.trim) = { st with level } := by
  have htrimmed : ∀ line ∈ lines.map Text.trim,
      line.IsTrimmed ∧ (line = [] ∨ Line.isStatement line = true) := by
    rw [List.forall_mem_map]
    intro line hline
    refine ⟨⟨Text.trim_trim line, ?_⟩, hcode line hline⟩
    intro hmem
    exact hnewline line hline ((Text.trim_sublist line).subset hmem)
  have hrun : ∀ st : State, st.region = .markup → st.tagSeen = false → st.level = 0 →
      run unit st (lines.map Text.trim) = Block.script.writtenFrom unit 0 0 lines ∧
        ∃ level, st.after (lines.map Text.trim) = { st with level } := by
    intro st hregion htag hlevel
    have h := run_of_isStatement unit htrimmed hregion htag
    rwa [hlevel, Block.writtenFrom, Block.placedFrom_map_trim, ← Block.writtenFrom] at h
  constructor
  · by_cases hne : lines = []
    · subst hne
      rfl
    · rw [format, trimmedLines_unlines hne hnewline hcode, (hrun {} rfl rfl rfl).1,
        Block.body_eq_unlines]
  · intro st hregion htag hlevel
    obtain ⟨hwritten, hafter⟩ := hrun st hregion htag hlevel
    refine ⟨?_, hafter⟩
    intro hne
    rw [hwritten, lines_body hunit _ _ hne hnewline]

/-- Statements of which some look like an element or a self-closing tag, and a blank line. -/
def lookalikes : List Text :=
  ["export const page = f(\x7b", " \t", "title = <b>x</b>", "  let c = <br/>", "\x7d );",
    "done()"].map String.toList

/-- The same lines at their levels. -/
def lookalikesPlaced : List Text :=
  ["export const page = f(\x7b", "", "\ttitle = <b>x</b>", "\tlet c = <br/>", "\x7d );",
    "done()"].map String.toList

theorem format_unlines_lookalikes :
    (∀ line ∈ lookalikes, '\n' ∉ line) ∧ (∀ line ∈ lookalikes, Line.IsCode line) ∧
      format tab (Text.unlines lookalikes) = Text.unlines lookalikesPlaced ∧
      run tab { style := { lines := [tab], start := 3 } } (lookalikes.map Text.trim) =
        lookalikesPlaced := by
  have hnewline : ∀ line ∈ lookalikes, '\n' ∉ line := by decide
  have hcode : ∀ line ∈ lookalikes, Line.IsCode line := by decide
  have hunit : '\n' ∉ tab := by decide
  obtain ⟨hformat, hrun⟩ := format_unlines_eq_script_body hunit hnewline hcode
  obtain ⟨hlines, -⟩ := hrun { style := { lines := [tab], start := 3 } } rfl rfl rfl
  refine ⟨hnewline, hcode, ?_, ?_⟩
  · rw [hformat]
    decide +kernel
  · rw [hlines (by decide)]
    decide +kernel

end Layout
end Reindent
