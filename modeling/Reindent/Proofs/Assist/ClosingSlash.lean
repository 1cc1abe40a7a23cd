import Reindent.Assist.ClosingTag
import Reindent.Proofs.Assist.Splice
import Reindent.Proofs.Buffer.Line
import Reindent.Proofs.Markup.Finished

/-!
# Completing a closing tag

After `</` has been typed, the rest of the closing tag of the innermost open tag is put in.  The
line before the cursor always shows the `<`, so the edit depends on the open tags alone.  If the
tags before the `<` are finished, the scan reads `</`, the name and `>` as one more closing tag,
and that tag closes the innermost one.  What stands before the cursor ends with a `>` then, so `</`
can be typed again: step by step all open tags are closed, from the innermost to the outermost.
-/

namespace Reindent
namespace Assist

open Buffer Markup

/-! ## What the typed slash calls for -/

/-- The line before the cursor ends with the `<` and the `/` that were typed. -/
theorem exists_line_of_slash
    {text : Text} {line character : ℕ} (hline : line < text.lines.length)
    (hcharacter : character ≤ text.lines[line].length)
    (htyped : ['<', '/'] <:+ text.take (offsetAt text { line, character })) :
    ∃ front rest, text.lines[line] = front ++ '<' :: '/' :: rest ∧
      character = front.length + 2 := by
  rw [take_offsetAt hline hcharacter] at htyped
  obtain ⟨front, hfront⟩ := Text.suffix_of_suffix_ended_append (by decide) htyped
  refine ⟨front, text.lines[line].drop character, ?_, ?_⟩
  · conv_lhs => rw [← List.take_append_drop character text.lines[line], ← hfront]
    simp
  · have hlength := congrArg List.length hfront
    rw [List.length_take_of_le hcharacter] at hlength
    simpa using hlength.symm

/-- Behind `</` the name of the innermost open tag is put in, if there is one. -/
theorem onType_slash
    {text : Text} {line character : ℕ} (hline : line < text.lines.length)
    (hcharacter : character ≤ text.lines[line].length)
    (htyped : ['<', '/'] <:+ text.take (offsetAt text { line, character })) :
    onType text { line, character } ['/'] =
      .ok ((openTags text (offsetAt text { line, character })).getLast?.map fun name =>
        .insert { line, character } (name ++ ['>'])) := by
  obtain ⟨front, rest, hraw, hcursor⟩ := exists_line_of_slash hline hcharacter htyped
  have hbefore : (withoutReturns text.lines[line]).take ((character : Int) - 1).toNat =
      front ++ ['<'] := by
    have hcount : ((character : Int) - 1).toNat = front.length + 1 := by omega
    rw [hraw, withoutReturns_append_cons (by decide), hcount, List.take_length_add_append,
      List.take_succ_cons, List.take_zero]
  obtain ⟨kept, hkept⟩ := Text.exists_trim_concat (show isBlank '<' = false by decide) front
  have hshown : ['<'].isSuffixOf (Text.trim (front ++ ['<'])) = true := by simp [hkept]
  have hslash : afterSlash text { line, character } =
      .ok ((openTags text (offsetAt text { line, character })).getLast?.map fun name =>
        .insert { line, character } (name ++ ['>'])) := by
    simp only [afterSlash, lineAt_of_lt hline, bind, Except.bind, hbefore, hshown, Bool.not_true,
      Bool.false_eq_true, if_false]
    cases (openTags text (offsetAt text { line, character })).getLast? with
    | none => rfl
    | some name => rfl
  simp [onType, hslash, Except.mapError]

/-! ## The tags behind the edit -/

theorem scans_closingTag {name : Text} (hname : IsName name) (offset : ℕ) :
    Scans offset (closingTag name)
      [{ start := offset, stop := offset + (closingTag name).length, name, kind := .closing }] := by
  have hinner : IsInner [] := ⟨by simp, by simp⟩
  have htag : IsTag .closing name (closingTag name) := by
    simpa [closingTag] using IsTag.closing hname hinner
  simpa using Scans.tag htag Scans.nil

/-- What is put in at the cursor makes a closing tag of the `</` before it. -/
theorem applyOne_completed
    {text before after : Text} {position : Position} (name : Text)
    (htake : text.take (offsetAt text position) = before ++ ['<', '/'])
    (hdrop : text.drop (offsetAt text position) = after) :
    applyOne text (.insert position (name ++ ['>'])) = before ++ closingTag name ++ after := by
  rw [applyOne_insert, htake, hdrop]
  simp [closingTag]

theorem length_completed (before name : Text) :
    before.length + 2 + (name ++ ['>']).length = (before ++ closingTag name).length := by
  simp only [closingTag, List.length_append, List.length_cons]
  omega

theorem tagsFinished_closingTag (before name : Text) :
    TagsFinished (before ++ closingTag name) := by
  have hends : before ++ closingTag name = (before ++ '<' :: '/' :: name) ++ ['>'] := by
    simp [closingTag]
  rw [hends]
  exact tagsFinished_concat _

/-- The open tags at the end of a part of a text. -/
theorem openTags_append (before after : Text) :
    openTags (before ++ after) before.length = unclosed (tags before) := by
  rw [openTags, Int.toNat_natCast, List.take_left]

section

variable {before : Text} (hfinished : TagsFinished before)

include hfinished in
/-- The `</` alone changes nothing about the open tags. -/
theorem unclosed_tags_slash :
    unclosed (tags (before ++ ['<', '/'])) = unclosed (tags before) := by
  have htags : tags (before ++ ['<', '/']) = tags before ++ [] :=
    tags_append hfinished rfl (scans_of_close_not_mem (by decide) _)
  rw [htags, List.append_nil]

include hfinished in
/-- Behind the closing tag of the innermost open tag, that tag is closed. -/
theorem unclosed_tags_closingTag
    {name : Text} (hlast : (unclosed (tags before)).getLast? = some name) :
    unclosed (tags (before ++ closingTag name)) = (unclosed (tags before)).dropLast := by
  have hname : IsName name := isName_of_mem_unclosed (List.mem_of_getLast? hlast)
  rw [tags_append hfinished rfl (scans_closingTag hname _)]
  exact unclosed_concat_closing rfl hlast

end

/-! ## Typing on -/

/-- A text that is being typed, with the offset of the cursor. -/
structure Draft where
  text : Text
  cursor : ℕ

namespace Draft

/-- The draft after `</` has been typed. -/
def slashed (draft : Draft) : Draft where
  text := draft.text.take draft.cursor ++ ['<', '/'] ++ draft.text.drop draft.cursor
  cursor := draft.cursor + 2

/-- The draft after the edit has been made that the typed `/` calls for, with the cursor behind what
was put in. -/
def assisted (draft : Draft) : Draft :=
  match onType draft.text (positionAt draft.text draft.cursor) ['/'] with
  | .ok (some edit) =>
    { text := applyOne draft.text edit, cursor := draft.cursor + edit.newText.length }
  | _ => draft

/-- The draft after one more round of typing `</` and making the edit. -/
def closeTag (draft : Draft) : Draft :=
  draft.slashed.assisted

section

variable {before : Text} (hfinished : TagsFinished before) (after : Text)

include hfinished in
/-- The edit behind `</` completes the closing tag of the innermost open tag. -/
theorem assisted_slash
    {name : Text} (hlast : (unclosed (tags before)).getLast? = some name) :
    assisted ⟨before ++ ['<', '/'] ++ after, before.length + 2⟩ =
      ⟨before ++ closingTag name ++ after, (before ++ closingTag name).length⟩ := by
  have hlength : (before ++ ['<', '/']).length = before.length + 2 := by simp
  obtain ⟨line, character, hline, hcharacter, hposition⟩ :=
    exists_positionAt (before ++ ['<', '/'] ++ after) (before.length + 2 : ℕ)
  have hoffset : offsetAt (before ++ ['<', '/'] ++ after) { line, character } =
      (before ++ ['<', '/']).length := by
    rw [← hposition, offsetAt_positionAt, hlength]
    simp [clamp]
    omega
  have htyped : ['<', '/'] <:+ (before ++ ['<', '/'] ++ after).take
      (offsetAt (before ++ ['<', '/'] ++ after) { line, character }) := by
    rw [hoffset, List.take_left]
    exact List.suffix_append _ _
  have hedit := onType_slash hline hcharacter htyped
  rw [hoffset, openTags_append, unclosed_tags_slash hfinished, hlast] at hedit
  have happlied := applyOne_completed name
    (by rw [hoffset, List.take_left]) (by rw [hoffset, List.drop_left])
  rw [assisted, hposition, hedit]
  simp only [Option.map_some, happlied]
  rw [Edit.insert, length_completed]

include hfinished in
theorem closeTag_eq
    {name : Text} (hlast : (unclosed (tags before)).getLast? = some name) :
    closeTag ⟨before ++ after, before.length⟩ =
      ⟨before ++ closingTag name ++ after, (before ++ closingTag name).length⟩ := by
  rw [closeTag, slashed, List.take_left, List.drop_left, assisted_slash hfinished after hlast]

end

/-- The closing tags of the innermost open tags of a text, from the innermost one on. -/
def closings (before : Text) (count : ℕ) : Text :=
  ((unclosed (tags before)).reverse.take count).flatMap closingTag

/-- Round by round the open tags are closed, from the innermost to the outermost. -/
theorem iterate_closeTag
    {before : Text} (hfinished : TagsFinished before) (after : Text) {count : ℕ}
    (hcount : count ≤ (unclosed (tags before)).length) :
    closeTag^[count] ⟨before ++ after, before.length⟩ =
        ⟨before ++ closings before count ++ after, (before ++ closings before count).length⟩ ∧
      unclosed (tags (before ++ closings before count)) =
        (unclosed (tags before)).take ((unclosed (tags before)).length - count) := by
  induction count generalizing before with
  | zero => simp [closings]
  | succ count ih =>
      obtain ⟨name, hlast⟩ : ∃ name, (unclosed (tags before)).getLast? = some name := by
        rw [← Option.isSome_iff_exists, List.getLast?_isSome]
        exact List.ne_nil_of_length_pos (by omega)
      obtain ⟨outer, hnames⟩ := List.getLast?_eq_some_iff.mp hlast
      have hrest := unclosed_tags_closingTag hfinished hlast
      rw [hnames, List.dropLast_concat] at hrest
      rw [hnames, List.length_append, List.length_singleton] at hcount
      have hclosings : before ++ closings before (count + 1) =
          before ++ closingTag name ++ closings (before ++ closingTag name) count := by
        simp [closings, hnames, hrest]
      obtain ⟨hdraft, hopen⟩ := ih (tagsFinished_closingTag before name) (by rw [hrest]; omega)
      rw [Function.iterate_succ_apply, closeTag_eq hfinished after hlast, hclosings]
      refine ⟨hdraft, ?_⟩
      rw [hopen, hrest, hnames, List.length_append, List.length_singleton, Nat.add_sub_add_right,
        List.take_append_of_le_length (Nat.sub_le _ _)]

end Draft

/-- A text in which `</` stands before an offset, cut around it. -/
theorem exists_cut_of_slice
    {text : Text} {offset : ℕ} (htwo : 2 ≤ offset)
    (htyped : slice text (offset - 2) offset = ['<', '/']) :
    (text.take (offset - 2)).length + 2 = offset ∧
      text.take (offset - 2) ++ ['<', '/'] = text.take offset := by
  have htake : text.take (offset - 2) ++ ['<', '/'] = text.take offset := by
    rw [← htyped, take_append_slice text (Nat.sub_le _ _)]
  have hlength := congrArg List.length htake
  rw [List.length_append, List.length_take, List.length_take] at hlength
  refine ⟨?_, htake⟩
  simp only [List.length_cons, List.length_nil] at hlength
  rw [List.length_take]
  omega

/-- Behind `</` there is no edit exactly when no tag is open.  Otherwise the rest of the closing tag
of the innermost open tag is put in at the cursor, and behind it the other tags are still open.
Typing `</` and making the edit again and again closes all open tags, innermost first. -/
theorem onType_slash_closes_innermost
    {text : Text} {line character : ℕ} (hline : line < text.lines.length)
    (hcharacter : character ≤ text.lines[line].length)
    {offset : ℕ} (hoffset : offsetAt text { line, character } = offset) (htwo : 2 ≤ offset)
    (htyped : slice text (offset - 2) offset = "</".toList)
    (hfinished : TagsFinished (text.take (offset - 2))) :
    (onType text { line, character } ['/'] = .ok none ↔ openTags text offset = []) ∧
      (∀ name, (openTags text offset).getLast? = some name →
        onType text { line, character } ['/'] =
            .ok (some (.insert { line, character } (name ++ ['>']))) ∧
          ∃ edited, applyAll text [.insert { line, character } (name ++ ['>'])] = .ok edited ∧
            openTags edited (offset + (name ++ ['>']).length : ℕ) =
              (openTags text offset).dropLast) ∧
      ∀ count < (openTags text offset).length,
        (Draft.closeTag^[count] (Draft.assisted ⟨text, offset⟩)).text =
            text.take (offset - 2) ++
              ((openTags text offset).reverse.take (count + 1)).flatMap closingTag ++
                text.drop offset ∧
          openTags (Draft.closeTag^[count] (Draft.assisted ⟨text, offset⟩)).text
              (Draft.closeTag^[count] (Draft.assisted ⟨text, offset⟩)).cursor =
            (openTags text offset).take ((openTags text offset).length - (count + 1)) := by
  obtain ⟨hbefore, htake⟩ := exists_cut_of_slice htwo htyped
  set before := text.take (offset - 2) with hbeforeDef
  set after := text.drop offset with hafterDef
  have htext : text = before ++ ['<', '/'] ++ after := by
    rw [htake, hafterDef, List.take_append_drop]
  have hopen : openTags text offset = unclosed (tags before) := by
    rw [openTags, Int.toNat_natCast, ← htake, unclosed_tags_slash hfinished]
  have hedit := onType_slash hline hcharacter (by
    rw [hoffset, ← htake]
    exact List.suffix_append _ _)
  rw [hoffset] at hedit
  refine ⟨?_, ?_, ?_⟩
  · rw [hedit]
    simp
  · intro name hlast
    have happlied := applyOne_completed name (by rw [hoffset, htake]) (by rw [hoffset])
    refine ⟨by rw [hedit, hlast, Option.map_some], _, applyAll_singleton _ _, ?_⟩
    rw [hopen] at hlast ⊢
    rw [happlied, ← hbefore, length_completed, openTags_append,
      unclosed_tags_closingTag hfinished hlast]
  · intro count hcount
    have hfirst : Draft.assisted ⟨text, offset⟩ =
        Draft.closeTag ⟨before ++ after, before.length⟩ := by
      rw [Draft.closeTag, Draft.slashed, List.take_left, List.drop_left, hbefore, ← htext]
    rw [hopen] at hcount ⊢
    obtain ⟨hdraft, hrest⟩ := Draft.iterate_closeTag hfinished after hcount
    rw [hfirst, ← Function.iterate_succ_apply, hdraft, openTags_append, hrest, Draft.closings]
    exact ⟨rfl, rfl⟩

/-- A list that is not well nested, with `</` typed at its end. -/
def unevenList : Text :=
  "<ul>\r\n<li><b></li><i x='<'>\r\n</\r".toList

/-- Three tags are open there, and three rounds close them. -/
theorem onType_slash_unevenList :
    offsetAt unevenList { line := 2, character := 2 } = 31 ∧
      slice unevenList 29 31 = "</".toList ∧
      TagsFinished (unevenList.take 29) ∧
      openTags unevenList 31 = ["ul".toList, ['b'], ['i']] ∧
      onType unevenList { line := 2, character := 2 } ['/'] =
        .ok (some (.insert { line := 2, character := 2 } "i>".toList)) ∧
      (Draft.closeTag^[2] (Draft.assisted ⟨unevenList, 31⟩)).text =
        "<ul>\r\n<li><b></li><i x='<'>\r\n</i></b></ul>\r".toList := by
  have hoffset : offsetAt unevenList { line := 2, character := 2 } = 31 := by decide
  have htyped : slice unevenList 29 31 = "</".toList := by decide
  have hfinished : TagsFinished (unevenList.take 29) := by decide
  have hopen : openTags unevenList 31 = ["ul".toList, ['b'], ['i']] := by decide
  obtain ⟨-, hedit, hrounds⟩ :=
    onType_slash_closes_innermost (by decide) (by decide) hoffset (by decide) htyped hfinished
  have hclosed := (hrounds 2 (by decide)).1
  refine ⟨hoffset, htyped, hfinished, hopen, (hedit ['i'] (by decide)).1, hclosed.trans ?_⟩
  decide

end Assist
end Reindent
