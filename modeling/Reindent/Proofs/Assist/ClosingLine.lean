import Reindent.Assist.ClosingTag
import Reindent.Proofs.Buffer.Line
import Reindent.Proofs.Markup.Scan

/-!
# Closing a tag on the next line

After `>` has been typed at the end of an opening tag, its closing tag is put on the next line.  It
goes there only if that line is there and blank, so the edit fills the line and moves no other one,
and then the line is not blank any more: typed at the same place again, the `>` calls for nothing.
-/

namespace Reindent
namespace Assist

open Buffer Markup

/-! ## The tag that ends a line -/

/-- A line ends with an opening tag: what stands before it, its name, and what stands between the
name and its `>`. -/
structure EndsWithTag (line before name inner : Text) : Prop where
  line_eq : line = before ++ '<' :: (name ++ inner ++ ['>'])
  isName : IsName name
  isAlpha_head : ∀ c ∈ name.head?, c.isAlpha = true
  isInner : IsInner inner

/-- The opening tag that ends the line has the given name.  If the line can be read in several ways,
the tag is the one that starts first. -/
def IsTagAtEnd (line name : Text) : Prop :=
  ∃ before inner, EndsWithTag line before name inner ∧
    ∀ other otherName otherInner, EndsWithTag line other otherName otherInner →
      before.length ≤ other.length

theorem endsWithTag_cons_iff (c d : Char) (line before name inner : Text) :
    EndsWithTag (c :: line) (d :: before) name inner ↔
      c = d ∧ EndsWithTag line before name inner := by
  constructor
  · rintro ⟨hline, hname, halpha, hinner⟩
    rw [List.cons_append, List.cons.injEq] at hline
    exact ⟨hline.1, hline.2, hname, halpha, hinner⟩
  · rintro ⟨rfl, rfl, hname, halpha, hinner⟩
    exact ⟨rfl, hname, halpha, hinner⟩

/-- The first tag that ends a line starts at the front of the line, or it is the first one that ends
the rest. -/
theorem isTagAtEnd_cons_iff (c : Char) (rest name : Text) :
    IsTagAtEnd (c :: rest) name ↔
      (∃ inner, EndsWithTag (c :: rest) [] name inner) ∨
        (∀ other inner, ¬ EndsWithTag (c :: rest) [] other inner) ∧ IsTagAtEnd rest name := by
  constructor
  · rintro ⟨before, inner, htag, hleast⟩
    cases before with
    | nil => exact .inl ⟨inner, htag⟩
    | cons d before =>
        refine .inr ⟨?_, before, inner, ((endsWithTag_cons_iff ..).mp htag).2, ?_⟩
        · intro otherName otherInner hother
          exact absurd (hleast [] otherName otherInner hother) (by simp)
        · intro other otherName otherInner hother
          have hlonger := (endsWithTag_cons_iff c c ..).mpr ⟨rfl, hother⟩
          exact Nat.le_of_succ_le_succ (hleast (c :: other) otherName otherInner hlonger)
  · rintro (⟨inner, hhere⟩ | ⟨hnone, before, inner, htag, hleast⟩)
    · exact ⟨[], inner, hhere, fun _ _ _ _ => Nat.zero_le _⟩
    · refine ⟨c :: before, inner, (endsWithTag_cons_iff ..).mpr ⟨rfl, htag⟩, ?_⟩
      intro other otherName otherInner hother
      cases other with
      | nil => exact absurd hother (hnone otherName otherInner)
      | cons d other =>
          have hrest := ((endsWithTag_cons_iff ..).mp hother).2
          exact Nat.succ_le_succ (hleast other otherName otherInner hrest)

theorem isNameChar_of_isAlpha {c : Char} (hc : c.isAlpha = true) : isNameChar c = true := by
  simp [isNameChar, isWordChar, Char.isAlphanum, hc]

theorem exists_endsWithTag_of_openingTagHere?
    {text name : Text} (hhere : openingTagHere? text = some name) :
    ∃ inner, EndsWithTag text [] name inner := by
  unfold openingTagHere? at hhere
  split at hhere
  · next c rest =>
    split at hhere
    · next hread =>
      rw [Bool.and_eq_true, decide_eq_true_iff] at hread
      obtain ⟨halpha, hclose⟩ := hread
      cases hhere
      set inner := (rest.dropWhile isNameChar).takeWhile (· ≠ '>') with hinnerDef
      have hinner : '>' ∉ inner := by
        intro hmem
        simpa using List.mem_takeWhile_imp hmem
      have hleft : rest.dropWhile isNameChar = inner ++ ['>'] := by
        rw [← hclose, hinnerDef, List.takeWhile_append_dropWhile]
      refine ⟨inner, ?_, ⟨by simp, ?_⟩, by simpa using halpha, isInner_of_dropWhile hinner hleft⟩
      · rw [List.append_assoc, ← hleft, List.cons_append, List.takeWhile_append_dropWhile,
          List.nil_append]
      · refine List.forall_mem_cons.mpr ⟨isNameChar_of_isAlpha halpha, ?_⟩
        exact fun d hd => List.mem_takeWhile_imp hd
    · cases hhere
  · cases hhere

theorem openingTagHere?_of_endsWithTag
    {text name inner : Text} (htag : EndsWithTag text [] name inner) :
    openingTagHere? text = some name := by
  obtain ⟨rfl, hname, halpha, hinner⟩ := htag
  obtain ⟨c, more, rfl, -, -⟩ := hname.exists_cons
  have hmore : ∀ d ∈ more, isNameChar d = true :=
    fun d hd => hname.isNameChar_of_mem d (List.mem_cons_of_mem c hd)
  obtain ⟨hread, hleft⟩ := hinner.takeWhile_dropWhile_name hmore []
  have hclose := (takeWhile_dropWhile_close hinner.close_not_mem []).2
  simp only [List.nil_append, List.cons_append, List.append_assoc, openingTagHere?, hread, hleft,
    hclose, halpha c rfl, decide_true, Bool.and_self, if_true]

theorem openingTagHere?_eq_some_iff (text name : Text) :
    openingTagHere? text = some name ↔ ∃ inner, EndsWithTag text [] name inner :=
  ⟨exists_endsWithTag_of_openingTagHere?, fun ⟨_, htag⟩ => openingTagHere?_of_endsWithTag htag⟩

theorem openingTagHere?_eq_none_iff (text : Text) :
    openingTagHere? text = none ↔ ∀ name inner, ¬ EndsWithTag text [] name inner := by
  simp only [Option.eq_none_iff_forall_ne_some, ne_eq, openingTagHere?_eq_some_iff, not_exists]

theorem openingTagAtEnd?_eq_some_iff (line name : Text) :
    openingTagAtEnd? line = some name ↔ IsTagAtEnd line name := by
  induction line with
  | nil =>
      refine iff_of_false (by simp [openingTagAtEnd?]) ?_
      rintro ⟨before, inner, htag, -⟩
      simpa using htag.line_eq
  | cons c rest ih =>
      rw [openingTagAtEnd?, Option.or_eq_some_iff, ih, openingTagHere?_eq_some_iff,
        openingTagHere?_eq_none_iff, isTagAtEnd_cons_iff]

/-! ## When the edit is called for -/

theorem nextLineIsBlank_iff (text : Text) (line : ℕ) :
    nextLineIsBlank text line = true ↔
      ∃ hnext : line + 1 < text.lines.length, Text.trim text.lines[line + 1] = [] := by
  have hcast : (line : Int) + 1 = ((line + 1 : ℕ) : Int) := by omega
  rw [nextLineIsBlank, hcast]
  rcases Nat.lt_or_ge (line + 1) text.lines.length with hnext | hnext
  · rw [lineAt_of_lt hnext]
    simp [hnext, trim_withoutReturns_eq_nil_iff]
  · rw [lineAt_of_not_lt (.inr (by rw [lineCount]; omega))]
    simp [Nat.not_lt.mpr hnext]

/-- The conditions for putting the closing tag of a name on the next line: the line ends with an
opening tag of that name and holds no closing or self-closing one, no closing tag of the name comes
behind the position, and the next line is there and blank. -/
structure CallsForClosing (text : Text) (line : ℕ) (character : Int) (name : Text) : Prop where
  next_lt : line + 1 < text.lines.length
  isTagAtEnd : IsTagAtEnd (withoutReturns text.lines[line]) name
  noClosing : ¬ "</".toList <:+: withoutReturns text.lines[line]
  notSelfClosing : ¬ "/>".toList <:+ Text.trim (withoutReturns text.lines[line])
  notClosed : ¬ closingTag name <:+: text.drop (offsetAt text { line, character })
  nextBlank : Text.trim text.lines[line + 1] = []

/-- The indentation of a closing tag: as many spaces as the line has blanks at its start. -/
def indentOf (line : Text) : Text :=
  List.replicate (line.length - (Text.trimStart line).length) ' '

section

variable {text : Text} {line : ℕ} (hline : line < text.lines.length) (character : Int)

include hline in
/-- The checks that are made once the tag has been read. -/
theorem checks_eq_false_iff
    {name : Text} (htag : IsTagAtEnd (withoutReturns text.lines[line]) name) :
    (Text.includes "</".toList (withoutReturns text.lines[line]) ||
        "/>".toList.isSuffixOf (Text.trim (withoutReturns text.lines[line])) ||
        Text.includes (closingTag name) (text.drop (offsetAt text { line, character })) ||
        !nextLineIsBlank text line) = false ↔
      CallsForClosing text line character name := by
  rw [← Bool.not_eq_true]
  simp only [Bool.or_eq_true, not_or, Bool.not_eq_true', Bool.not_eq_false,
    Text.includes_iff_infix, List.isSuffixOf_iff_suffix, nextLineIsBlank_iff]
  constructor
  · rintro ⟨⟨⟨hclosing, hself⟩, hlater⟩, hnext, hblank⟩
    exact ⟨hnext, htag, hclosing, hself, hlater, hblank⟩
  · rintro ⟨hnext, -, hclosing, hself, hlater, hblank⟩
    exact ⟨⟨⟨hclosing, hself⟩, hlater⟩, hnext, hblank⟩

include hline in
theorem onType_close_of_calls
    {name : Text} (hcalls : CallsForClosing text line character name) :
    onType text { line, character } ['>'] =
      .ok (some (.insert { line := line + 1, character := 0 }
        (indentOf (withoutReturns text.lines[line]) ++ closingTag name))) := by
  have hread := (openingTagAtEnd?_eq_some_iff _ _).mpr hcalls.isTagAtEnd
  have hchecks := (checks_eq_false_iff hline character hcalls.isTagAtEnd).mpr hcalls
  have hclose : afterTagEnd text { line, character } =
      .ok (some (.insert { line := line + 1, character := 0 }
        (indentOf (withoutReturns text.lines[line]) ++ closingTag name))) := by
    simp only [afterTagEnd, lineAt_of_lt hline, bind, Except.bind, hread, hchecks,
      Bool.false_eq_true, if_false]
    rfl
  simp [onType, hclose, Except.mapError]

include hline in
theorem onType_close_of_not_calls
    (hcalls : ∀ name, ¬ CallsForClosing text line character name) :
    onType text { line, character } ['>'] = .ok none := by
  have hclose : afterTagEnd text { line, character } = .ok none := by
    simp only [afterTagEnd, lineAt_of_lt hline, bind, Except.bind]
    cases hread : openingTagAtEnd? (withoutReturns text.lines[line]) with
    | none => rfl
    | some name =>
        have htag := (openingTagAtEnd?_eq_some_iff _ _).mp hread
        have hchecks := mt (checks_eq_false_iff hline character htag).mp (hcalls name)
        rw [Bool.not_eq_false] at hchecks
        simp only [hchecks, if_true]
        rfl
  simp [onType, hclose, Except.mapError]

theorem onType_close_of_not_lt
    {position : Position}
    (hposition : position.line < 0 ∨ (lineCount text : Int) ≤ position.line) :
    onType text position ['>'] =
      .error (.noSuchLine { line := position.line, count := lineCount text }) := by
  have hclose : afterTagEnd text position =
      .error { line := position.line, count := lineCount text } := by
    simp only [afterTagEnd, lineAt_of_not_lt hposition, bind, Except.bind]
  simp [onType, hclose, Except.mapError]

end

/-! ## What the edit does -/

/-- The closing tag, with blanks around it, is what trimming leaves. -/
theorem trim_filled
    (line name : Text) {next : Text} (hnext : Text.trim next = []) :
    Text.trim (indentOf line ++ closingTag name ++ next) = closingTag name := by
  have hindent : ∀ c ∈ indentOf line, isBlank c = true := by
    intro c hc
    rw [List.eq_of_mem_replicate hc]
    decide
  have hcut : closingTag name = '<' :: (('/' :: name) ++ ['>']) := rfl
  rw [hcut]
  exact Text.trim_padded hindent ((Text.trim_eq_nil_iff next).mp hnext) (by decide) (by decide)

theorem newline_not_mem_closingTag {name : Text} (hname : IsName name) :
    '\n' ∉ closingTag name := by
  have hplain : '\n' ∉ name := fun hmem =>
    absurd (hname.isNameChar_of_mem _ hmem) (by decide)
  simp [closingTag, hplain]

/-- Making the edit adds the closing tag to the blank line and leaves all other lines alone. -/
theorem lines_applyOne_closing
    {text : Text} {line : ℕ} {character : Int} {name : Text}
    (hcalls : CallsForClosing text line character name) (shown : Text) :
    ∃ hnext : line + 1 < text.lines.length,
      (applyOne text (.insert { line := line + 1, character := 0 }
          (indentOf shown ++ closingTag name))).lines =
        text.lines.set (line + 1) (indentOf shown ++ closingTag name ++ text.lines[line + 1]) := by
  obtain ⟨before, inner, htag, -⟩ := hcalls.isTagAtEnd
  have hnew : '\n' ∉ indentOf shown ++ closingTag name := by
    rw [List.mem_append, not_or]
    refine ⟨fun hmem => ?_, newline_not_mem_closingTag htag.isName⟩
    exact absurd (List.eq_of_mem_replicate hmem) (by decide)
  exact ⟨hcalls.next_lt, lines_applyOne_insert hcalls.next_lt hnew⟩

/-- Below the line that has been filled nothing more is called for. -/
theorem not_callsForClosing_of_filled
    {text edited filled name : Text} {line : ℕ}
    (hlines : edited.lines = text.lines.set (line + 1) filled)
    (hfilled : Text.trim filled = closingTag name) (character : Int) (other : Text) :
    ¬ CallsForClosing edited line character other := by
  intro hcalls
  have hblank := hcalls.nextBlank
  simp only [hlines, List.getElem_set_self, hfilled, closingTag, List.cons_append,
    reduceCtorEq] at hblank

/-- For a `>` typed in a line that does not exist, there is an error and no edit.  In any other line
the edit is made exactly when it is called for.  Then it fills the next line, which was blank, with
the closing tag of the tag that ends the line, and leaves all other lines as they are; typed at the
same position again, the `>` calls for nothing. -/
theorem onType_close_fills_blank_line (text : Text) (position : Position) :
    (position.line < 0 ∨ (lineCount text : Int) ≤ position.line →
        onType text position ['>'] =
          .error (.noSuchLine { line := position.line, count := lineCount text })) ∧
      ∀ line : ℕ, position.line = line → line < lineCount text →
        ∃ answer, onType text position ['>'] = .ok answer ∧
          (answer ≠ none ↔ ∃ name, CallsForClosing text line position.character name) ∧
          ∀ edit, answer = some edit → ∃ name filled edited,
            CallsForClosing text line position.character name ∧
              applyAll text [edit] = .ok edited ∧
              edited.lines = text.lines.set (line + 1) filled ∧
              Text.trim filled = closingTag name ∧
              lineCount edited = lineCount text ∧
              onType edited position ['>'] = .ok none := by
  refine ⟨onType_close_of_not_lt, ?_⟩
  intro line hposition hline
  obtain ⟨number, character⟩ := position
  subst hposition
  by_cases hcalls : ∃ name, CallsForClosing text line character name
  · obtain ⟨name, hname⟩ := hcalls
    refine ⟨_, onType_close_of_calls hline character hname,
      iff_of_true (Option.some_ne_none _) ⟨name, hname⟩, ?_⟩
    intro edit hedit
    cases hedit
    obtain ⟨hnext, hlines⟩ := lines_applyOne_closing hname (withoutReturns text.lines[line])
    have hfilled := trim_filled (withoutReturns text.lines[line]) name hname.nextBlank
    refine ⟨name, _, _, hname, applyAll_singleton _ _, hlines, hfilled, ?_, ?_⟩
    · rw [lineCount, hlines, List.length_set, lineCount]
    · refine onType_close_of_not_calls (by rwa [hlines, List.length_set]) character ?_
      exact not_callsForClosing_of_filled hlines hfilled character
  · refine ⟨none, onType_close_of_not_calls hline character (not_exists.mp hcalls), ?_, ?_⟩
    · exact iff_of_false (not_not.mpr rfl) hcalls
    · intro edit hedit
      cases hedit

/-- A page whose third line is blank but for a tab. -/
def blankBelow : Text :=
  "<div>\r\n  <section <p>\r\n\t\r\n</div>".toList

/-- Behind its second line the closing tag is put in once, whatever the column; there is no eighth
line. -/
theorem onType_close_blankBelow :
    onType blankBelow { line := 7, character := 0 } ['>'] =
        .error (.noSuchLine { line := 7, count := 4 }) ∧
      ∃ edited, onType blankBelow { line := 1, character := -3 } ['>'] =
          .ok (some (.insert { line := 2, character := 0 } "  </section>".toList)) ∧
        applyAll blankBelow [.insert { line := 2, character := 0 } "  </section>".toList] =
          .ok edited ∧
        lineCount edited = 4 ∧
        onType edited { line := 1, character := -3 } ['>'] = .ok none := by
  have hmissing := (onType_close_fills_blank_line blankBelow { line := 7, character := 0 }).1
  obtain ⟨answer, hanswer, -, hedit⟩ :=
    (onType_close_fills_blank_line blankBelow { line := 1, character := -3 }).2 1 rfl (by decide)
  have hfires : onType blankBelow { line := 1, character := -3 } ['>'] =
      .ok (some (.insert { line := 2, character := 0 } "  </section>".toList)) := by decide
  rw [hfires, Except.ok.injEq] at hanswer
  obtain ⟨-, -, edited, -, happly, -, -, hcount, hagain⟩ := hedit _ hanswer.symm
  exact ⟨hmissing (by decide), edited, hfires, happly, hcount, hagain⟩

end Assist
end Reindent
