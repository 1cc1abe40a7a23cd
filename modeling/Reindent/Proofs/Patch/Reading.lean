import Reindent.Document.File
import Reindent.Proofs.Buffer.Offset
import Reindent.Proofs.Json.RoundTrip
import Reindent.Proofs.Patch.Application
import Reindent.Proofs.Patch.Unchanged

/-!
# Patches are read back

A reader of patches, to say what a program makes of the text of one.  It takes the text for lines
that end with a newline each.  After the two lines with the path, a header says how many old and new
lines its hunk has, and as many lines with their signs follow; then the next header comes, or the
end.

The text of a patch is read back as its hunks exactly when the path holds no newline and every line
that is shown ends with one.  Lines are written with the breaks they have: a line that ends with
another break, or the last line of a text that has none, does not stand on a line of its own, and
what follows it is pasted to it.
-/

namespace Reindent
namespace Text

/-! ## Lines that end with a newline -/

/-- The lines of a text, if each of them ends with a newline. -/
def endedLines? (t : Text) : Option (List Text) :=
  if (lines t).getLast? = some [] then some (lines t).dropLast else none

theorem endedLines?_ended
    {ls : List Text} (hls : ∀ l ∈ ls, '\n' ∉ l) :
    endedLines? (ended ls) = some ls := by
  have hlines : lines (ended ls) = ls ++ [[]] := by
    simpa [lines] using lines_ended_append hls []
  simp [endedLines?, hlines]

theorem length_of_endedLines?
    {t : Text} {ls : List Text} (h : endedLines? t = some ls) :
    ls.length = t.count '\n' := by
  obtain ⟨init, last, rfl, hinit, hlast⟩ := exists_eq_ended_append t
  rw [endedLines?, lines_ended_append hinit, lines_of_newline_not_mem hlast,
    List.dropLast_concat] at h
  split at h
  · rw [← Option.some.inj h, List.count_append, count_newline_ended hinit,
      List.count_eq_zero_of_not_mem hlast, Nat.add_zero]
  · cases h

/-- A line of a text holds a newline at most at its end. -/
theorem newline_not_mem_dropLast
    {t line : Text} (hline : line ∈ brokenLines t) :
    '\n' ∉ line.dropLast := by
  fun_induction brokenLines t generalizing line with
  | case1 => cases hline
  | case2 cs ih =>
      rcases List.mem_cons.mp hline with rfl | hline
      · decide
      · exact ih hline
  | case3 c cs _ _ ih =>
      rcases List.mem_cons.mp hline with rfl | hline
      · exact List.not_mem_nil
      · exact ih hline
  | case4 c cs _ _ _ ih =>
      rw [List.mem_singleton.mp hline]
      exact List.not_mem_nil
  | case5 c cs _ hbreak l ls hls ih =>
      rcases List.mem_cons.mp hline with rfl | hline
      · have hc : '\n' ≠ c := by
          rintro rfl
          exact hbreak rfl
        have hl : '\n' ∉ l.dropLast := ih (hls ▸ List.mem_cons_self)
        cases l with
        | nil => exact List.not_mem_nil
        | cons d l => exact List.not_mem_cons_of_ne_of_not_mem hc hl
      · exact ih (hls ▸ List.mem_cons_of_mem _ hline)

theorem dropLast_append_newline
    {line : Text} (h : line.getLast? = some '\n') :
    line.dropLast ++ ['\n'] = line := by
  obtain ⟨front, rfl⟩ := List.getLast?_eq_some_iff.mp h
  rw [List.dropLast_concat]

end Text

namespace Patch

open Text

/-! ## Written lines -/

/-- The character in front of a line. -/
def Sign.char : Sign → Char
  | .kept => ' '
  | .removed => '-'
  | .added => '+'

/-- A line behind its sign. -/
def shownText (line : Shown) : Text :=
  line.1.char :: line.2

theorem Piece.text_eq (piece : Piece) : piece.text = piece.shown.flatMap shownText := by
  cases piece <;>
    simp [Piece.text, Piece.shown, shownText, Sign.char, List.flatMap_map]

/-- The header of a hunk, without the newline after it. -/
def Hunk.header (hunk : Hunk) : Text :=
  '@' :: '@' :: ' ' :: '-' :: ((rangeText hunk.oldStart hunk.oldSize).toList ++
    ' ' :: '+' :: ((rangeText hunk.newStart hunk.newSize).toList ++ [' ', '@', '@']))

theorem Hunk.text_eq (hunk : Hunk) :
    hunk.text = hunk.header ++ '\n' :: hunk.shown.lines.flatMap shownText := by
  have hpieces : hunk.pieces.flatMap Piece.text =
      (hunk.pieces.flatMap Piece.shown).flatMap shownText := by
    rw [List.flatMap_assoc]
    exact List.flatMap_congr fun piece _ => piece.text_eq
  rw [Hunk.text, hpieces, Hunk.shown, Hunk.header]
  simp

/-! ## The reader -/

/-- The first index and the number of lines, and what follows them. -/
def readRange? (text : Text) : Option ((ℕ × ℕ) × Text) := do
  let (first, rest) ← Json.readNatural text
  match rest with
  | ',' :: rest =>
    let (size, rest) ← Json.readNatural rest
    return ((if size = 0 then first else first - 1, size), rest)
  | rest => return ((first - 1, 1), rest)

/-- The old and the new lines that a header announces. -/
def readHeader? : Text → Option ((ℕ × ℕ) × (ℕ × ℕ))
  | '@' :: '@' :: ' ' :: '-' :: rest => do
    match ← readRange? rest with
    | (old, ' ' :: '+' :: rest) =>
      let (new, rest) ← readRange? rest
      if rest = [' ', '@', '@'] then return (old, new) else none
    | _ => none
  | _ => none

/-- A line and its sign. -/
def readLine? : Text → Option Shown
  | ' ' :: line => some (.kept, line ++ ['\n'])
  | '-' :: line => some (.removed, line ++ ['\n'])
  | '+' :: line => some (.added, line ++ ['\n'])
  | _ => none

/-- How many lines of a side are to come after one with the sign, if it is not one too many. -/
def Sign.left? (side : Side) (sign : Sign) : ℕ → Option ℕ
  | 0 => if sign.isOn side then none else some 0
  | left + 1 => some (if sign.isOn side then left else left + 1)

/-- The rest of a hunk with so many old and new lines to come, and the hunks after it. -/
def readHunks : ℕ → ℕ → List Text → Option (List Shown × List ShownHunk)
  | oldLeft, newLeft, [] => if oldLeft = 0 ∧ newLeft = 0 then some ([], []) else none
  | oldLeft, newLeft, line :: rest =>
    if oldLeft = 0 ∧ newLeft = 0 then do
      let (old, new) ← readHeader? line
      let (lines, later) ← readHunks old.2 new.2 rest
      return ([], { oldStart := old.1, newStart := new.1, lines } :: later)
    else do
      let shown ← readLine? line
      let oldLeft ← shown.1.left? .old oldLeft
      let newLeft ← shown.1.left? .new newLeft
      let (lines, later) ← readHunks oldLeft newLeft rest
      return (shown :: lines, later)

/-- The hunks of a patch.  A text without a line has none. -/
def read? (patch : Text) : Option (List ShownHunk) := do
  match ← endedLines? patch with
  | [] => return []
  | old :: new :: rest =>
    if ['-', '-', '-', ' '].isPrefixOf old && ['+', '+', '+', ' '].isPrefixOf new then
      let (_, hunks) ← readHunks 0 0 rest
      return hunks
    else none
  | _ => none

/-- The text that a patch makes of another one. -/
def patched? (patch before : Text) : Option Text := do
  let hunks ← read? patch
  let lines ← applied 0 0 hunks before.brokenLines
  return lines.flatten

/-! ## Reading what was written -/

/-- A line behind its sign, without the newline at its end. -/
def writtenLine (line : Shown) : Text :=
  line.1.char :: line.2.dropLast

/-- The lines of a hunk in a patch, without the newlines at their ends. -/
def Hunk.written (hunk : Hunk) : List Text :=
  hunk.header :: hunk.shown.lines.map writtenLine

theorem readLine?_writtenLine
    {line : Shown} (h : line.2.getLast? = some '\n') :
    readLine? (writtenLine line) = some line := by
  obtain ⟨sign, line⟩ := line
  have hline := dropLast_append_newline h
  cases sign <;> simp [writtenLine, Sign.char, readLine?, hline]

theorem linesOn_cons (side : Side) (line : Shown) (ls : List Shown) :
    linesOn side (line :: ls) =
      if line.1.isOn side then line.2 :: linesOn side ls else linesOn side ls := by
  rw [linesOn, List.filter_cons]
  split <;> rfl

theorem Sign.left?_linesOn (side : Side) (line : Shown) (ls : List Shown) :
    line.1.left? side (linesOn side (line :: ls)).length = some (linesOn side ls).length := by
  rw [linesOn_cons]
  cases hon : line.1.isOn side with
  | true => simp [Sign.left?, hon]
  | false =>
      rw [if_neg Bool.false_ne_true]
      generalize (linesOn side ls).length = left
      cases left <;> simp [Sign.left?, hon]

theorem exists_mem_linesOn (line : Shown) (ls : List Shown) :
    ∃ side, line.2 ∈ linesOn side (line :: ls) := by
  obtain ⟨sign, line⟩ := line
  cases sign
  · exact ⟨.old, List.mem_cons_self⟩
  · exact ⟨.old, List.mem_cons_self⟩
  · exact ⟨.new, List.mem_cons_self⟩

/-- The lines that a header announces are read, and then the next hunk. -/
theorem readHunks_append
    {ls : List Shown} (h : ∀ line ∈ ls, line.2.getLast? = some '\n') (rest : List Text) :
    readHunks (linesOn .old ls).length (linesOn .new ls).length (ls.map writtenLine ++ rest) =
      (readHunks 0 0 rest).map fun read => (ls ++ read.1, read.2) := by
  induction ls with
  | nil => exact (Option.map_id' ..).symm
  | cons line ls ih =>
      obtain ⟨hline, hls⟩ := List.forall_mem_cons.mp h
      have hopen : ¬ ((linesOn .old (line :: ls)).length = 0 ∧
          (linesOn .new (line :: ls)).length = 0) := by
        rintro ⟨hold, hnew⟩
        obtain ⟨side, hmem⟩ := exists_mem_linesOn line ls
        cases side
        · exact List.ne_nil_of_mem hmem (List.length_eq_zero_iff.mp hold)
        · exact List.ne_nil_of_mem hmem (List.length_eq_zero_iff.mp hnew)
      rw [List.map_cons, List.cons_append, readHunks, if_neg hopen, readLine?_writtenLine hline]
      simp only [Option.bind_eq_bind, Option.bind_some, Sign.left?_linesOn, ih hls]
      cases readHunks 0 0 rest <;> rfl

theorem toList_toString (n : ℕ) : (toString n).toList = Nat.toDigits 10 n := by
  simp [toString, Nat.repr_eq_ofList_toDigits]

theorem readRange?_rangeText (start size : ℕ) (rest : Text) :
    readRange? ((rangeText start size).toList ++ ' ' :: rest) =
      some ((start, size), ' ' :: rest) := by
  have hnumber : ∀ (n : ℕ) {c : Char}, c.isDigit = false → ∀ tail : Text,
      Json.readNatural (Nat.toDigits 10 n ++ c :: tail) = some (n, c :: tail) :=
    fun n _ hc tail => Json.readNatural_toDigits n (Json.stops_cons hc tail)
  have hpair : ∀ first : ℕ,
      readRange? (Nat.toDigits 10 first ++ ',' :: (Nat.toDigits 10 size ++ ' ' :: rest)) =
        some ((if size = 0 then first else first - 1, size), ' ' :: rest) := by
    intro first
    simp [readRange?, hnumber]
  rw [rangeText]
  split
  · next hone =>
    rw [toList_toString, readRange?, hnumber _ rfl, hone]
    rfl
  · split
    · next hzero => simpa [toList_toString, hzero] using hpair start
    · next hpos => simpa [toList_toString, hpos] using hpair (start + 1)

theorem readHeader?_header (hunk : Hunk) :
    readHeader? hunk.header =
      some ((hunk.oldStart, hunk.oldSize), (hunk.newStart, hunk.newSize)) := by
  rw [Hunk.header]
  simp [readHeader?, readRange?_rangeText]

theorem length_linesOn_shown (hunk : Hunk) :
    (linesOn .old hunk.shown.lines).length = hunk.oldSize ∧
      (linesOn .new hunk.shown.lines).length = hunk.newSize :=
  ⟨congrArg List.length (linesOn_flatMap_shown .old hunk.pieces),
    congrArg List.length (linesOn_flatMap_shown .new hunk.pieces)⟩

/-- The written lines of hunks are read back as the hunks. -/
theorem readHunks_written
    {hunks : List Hunk}
    (h : ∀ hunk ∈ hunks, ∀ line ∈ hunk.shown.lines, line.2.getLast? = some '\n') :
    readHunks 0 0 (hunks.flatMap Hunk.written) = some ([], hunks.map Hunk.shown) := by
  induction hunks with
  | nil => rfl
  | cons hunk hunks ih =>
      obtain ⟨hhunk, hrest⟩ := List.forall_mem_cons.mp h
      obtain ⟨hold, hnew⟩ := length_linesOn_shown hunk
      have hlines := readHunks_append hhunk (hunks.flatMap Hunk.written)
      rw [hold, hnew, ih hrest] at hlines
      rw [List.flatMap_cons, Hunk.written, List.cons_append, readHunks, if_pos ⟨rfl, rfl⟩,
        readHeader?_header]
      simp only [Option.bind_eq_bind, Option.bind_some, hlines, Option.map_some, List.append_nil]
      rfl

/-! ## The text of a patch as lines -/

/-- The lines of a hunk are lines of the texts it leads between. -/
theorem mem_of_applied
    {oldAt newAt : ℕ} {hunks : List ShownHunk} {old new : List Text}
    (h : applied oldAt newAt hunks old = some new) :
    ∀ hunk ∈ hunks, (∀ line ∈ linesOn .old hunk.lines, line ∈ old) ∧
      ∀ line ∈ linesOn .new hunk.lines, line ∈ new := by
  induction hunks generalizing oldAt newAt old new with
  | nil => exact List.forall_mem_nil _
  | cons hunk later ih =>
      rw [applied] at h
      split at h
      · next hfits =>
        simp only [Bool.and_eq_true, List.isPrefixOf_iff_prefix] at hfits
        obtain ⟨done, hdone, rfl⟩ := Option.map_eq_some_iff.mp h
        have hlater := ih hdone
        refine List.forall_mem_cons.mpr ⟨⟨?_, ?_⟩, fun hunk hmem => ⟨?_, ?_⟩⟩
        · exact fun line hline => List.mem_of_mem_drop (hfits.2.subset hline)
        · exact fun line hline => List.mem_append_right _ (List.mem_append_left _ hline)
        · exact fun line hline => List.mem_of_mem_drop ((hlater hunk hmem).1 line hline)
        · exact fun line hline => List.mem_append_right _
            (List.mem_append_right _ ((hlater hunk hmem).2 line hline))
      · cases h

theorem exists_side_mem_linesOn
    {line : Shown} {ls : List Shown} (h : line ∈ ls) :
    ∃ side, line.2 ∈ linesOn side ls := by
  obtain ⟨front, back, rfl⟩ := List.append_of_mem h
  obtain ⟨side, hside⟩ := exists_mem_linesOn line back
  exact ⟨side, linesOn_append side front _ ▸ List.mem_append_right _ hside⟩

theorem mem_of_mem_hunks
    {old new : List Text} {hunk : Hunk} (hhunk : hunk ∈ hunks old new) {line : Shown}
    (hline : line ∈ hunk.shown.lines) :
    line.2 ∈ old ∨ line.2 ∈ new := by
  obtain ⟨hold, hnew⟩ := mem_of_applied (applied_hunks old new) _ (List.mem_map_of_mem hhunk)
  obtain ⟨side, hside⟩ := exists_side_mem_linesOn hline
  cases side
  · exact Or.inl (hold _ hside)
  · exact Or.inr (hnew _ hside)

theorem newline_not_mem_writtenLine
    {old new : Text} {hunk : Hunk} (hhunk : hunk ∈ hunks old.brokenLines new.brokenLines)
    {line : Shown} (hline : line ∈ hunk.shown.lines) :
    '\n' ∉ writtenLine line := by
  have hsign : '\n' ≠ line.1.char := by
    cases line.1 <;> decide
  refine List.not_mem_cons_of_ne_of_not_mem hsign ?_
  rcases mem_of_mem_hunks hhunk hline with hold | hnew
  · exact newline_not_mem_dropLast hold
  · exact newline_not_mem_dropLast hnew

theorem newline_not_mem_rangeText (start size : ℕ) : '\n' ∉ (rangeText start size).toList := by
  have hdigits : ∀ n : ℕ, '\n' ∉ Nat.toDigits 10 n := by
    intro n hmem
    exact absurd (Nat.isDigit_of_mem_toDigits (by omega) (by omega) hmem) (by decide)
  rw [rangeText]
  split
  · rw [toList_toString]
    exact hdigits _
  · split <;> simp [hdigits]

theorem newline_not_mem_header (hunk : Hunk) : '\n' ∉ hunk.header := by
  simp [Hunk.header, newline_not_mem_rangeText]

theorem Hunk.text_eq_ended
    {hunk : Hunk} (h : ∀ line ∈ hunk.shown.lines, line.2.getLast? = some '\n') :
    hunk.text = ended hunk.written := by
  have hlines : hunk.shown.lines.flatMap shownText =
      ended (hunk.shown.lines.map writtenLine) := by
    rw [ended, List.flatMap_map]
    refine List.flatMap_congr fun line hline => ?_
    rw [writtenLine, List.cons_append, dropLast_append_newline (h line hline), shownText]
  rw [Hunk.text_eq, hlines, Hunk.written, ended_cons]

/-- The two lines with the path, at the start of a patch. -/
def pathLines (path : String) : List Text :=
  ['-' :: '-' :: '-' :: ' ' :: (path.toList ++ " (original)".toList),
    '+' :: '+' :: '+' :: ' ' :: (path.toList ++ " (formatted)".toList)]

theorem text_eq_append
    (path : String) {old new : Text} (h : hunks old.brokenLines new.brokenLines ≠ []) :
    text path old new =
      ended (pathLines path) ++ (hunks old.brokenLines new.brokenLines).flatMap Hunk.text := by
  rw [text]
  split
  · next hnil => exact absurd hnil h
  · simp [pathLines, ended]

/-! ## What can be read -/

/-- How many lines hunks have in a patch, with their headers. -/
def lineCount : List ShownHunk → ℕ
  | [] => 0
  | hunk :: later => hunk.lines.length + 1 + lineCount later

/-- Every line of the hunks ends with a newline. -/
def EndLines (hunks : List ShownHunk) : Prop :=
  ∀ hunk ∈ hunks, ∀ line ∈ hunk.lines, line.2.getLast? = some '\n'

theorem getLast?_of_readLine?
    {text : Text} {line : Shown} (h : readLine? text = some line) :
    line.2.getLast? = some '\n' := by
  unfold readLine? at h
  split at h
  · rw [← Option.some.inj h]
    exact List.getLast?_concat
  · rw [← Option.some.inj h]
    exact List.getLast?_concat
  · rw [← Option.some.inj h]
    exact List.getLast?_concat
  · cases h

/-- Lines that were read end with a newline, and no line of the patch is passed over. -/
theorem of_readHunks
    {oldLeft newLeft : ℕ} {ls : List Text} {lines : List Shown} {later : List ShownHunk}
    (h : readHunks oldLeft newLeft ls = some (lines, later)) :
    (∀ line ∈ lines, line.2.getLast? = some '\n') ∧ EndLines later ∧
      ls.length = lines.length + lineCount later := by
  induction ls generalizing oldLeft newLeft lines later with
  | nil =>
      rw [readHunks] at h
      split at h
      · obtain ⟨rfl, rfl⟩ := Prod.mk.inj (Option.some.inj h)
        exact ⟨List.forall_mem_nil _, List.forall_mem_nil _, rfl⟩
      · cases h
  | cons l ls ih =>
      rw [readHunks] at h
      split at h
      · obtain ⟨⟨old, new⟩, -, h⟩ := Option.bind_eq_some_iff.mp h
        obtain ⟨⟨inside, rest⟩, hread, h⟩ := Option.bind_eq_some_iff.mp h
        obtain ⟨rfl, rfl⟩ := Prod.mk.inj (Option.some.inj h)
        obtain ⟨hinside, hrest, hlength⟩ := ih hread
        refine ⟨List.forall_mem_nil _, List.forall_mem_cons.mpr ⟨hinside, hrest⟩, ?_⟩
        rw [List.length_cons, hlength, lineCount, List.length_nil, Nat.zero_add,
          Nat.add_right_comm]
      · obtain ⟨shown, hshown, h⟩ := Option.bind_eq_some_iff.mp h
        obtain ⟨oldNext, -, h⟩ := Option.bind_eq_some_iff.mp h
        obtain ⟨newNext, -, h⟩ := Option.bind_eq_some_iff.mp h
        obtain ⟨⟨inside, rest⟩, hread, h⟩ := Option.bind_eq_some_iff.mp h
        obtain ⟨rfl, rfl⟩ := Prod.mk.inj (Option.some.inj h)
        obtain ⟨hinside, hrest, hlength⟩ := ih hread
        refine ⟨List.forall_mem_cons.mpr ⟨?_, hinside⟩, hrest, ?_⟩
        · exact getLast?_of_readLine? hshown
        · rw [List.length_cons, hlength, List.length_cons]
          omega

/-- Between two hunks there is nothing to read. -/
theorem eq_nil_of_readHunks_zero
    {ls : List Text} {lines : List Shown} {later : List ShownHunk}
    (h : readHunks 0 0 ls = some (lines, later)) :
    lines = [] := by
  cases ls with
  | nil => exact (Prod.mk.inj (Option.some.inj h)).1.symm
  | cons l ls =>
      rw [readHunks, if_pos ⟨rfl, rfl⟩] at h
      obtain ⟨_, -, h⟩ := Option.bind_eq_some_iff.mp h
      obtain ⟨_, -, h⟩ := Option.bind_eq_some_iff.mp h
      exact (Prod.mk.inj (Option.some.inj h)).1.symm

/-- Hunks that were read end their lines, and the patch has no line but theirs and two more. -/
theorem of_read?
    {patch : Text} {found : List ShownHunk} (h : read? patch = some found) (hne : found ≠ []) :
    EndLines found ∧ patch.count '\n' = lineCount found + 2 := by
  obtain ⟨ls, hls, h⟩ := Option.bind_eq_some_iff.mp h
  have hcount := length_of_endedLines? hls
  split at h
  · exact absurd (Option.some.inj h).symm hne
  · next old new rest =>
    split at h
    · obtain ⟨⟨lines, later⟩, hread, h⟩ := Option.bind_eq_some_iff.mp h
      obtain rfl := Option.some.inj h
      obtain rfl := eq_nil_of_readHunks_zero hread
      obtain ⟨-, hends, hlength⟩ := of_readHunks hread
      refine ⟨hends, ?_⟩
      rw [← hcount, List.length_cons, List.length_cons, hlength, List.length_nil, Nat.zero_add]
    · cases h
  · cases h

theorem length_le_count
    {ls : List Shown} (h : ∀ line ∈ ls, line.2.getLast? = some '\n') :
    ls.length ≤ (ls.flatMap shownText).count '\n' := by
  induction ls with
  | nil => exact Nat.zero_le _
  | cons line ls ih =>
      obtain ⟨hline, hls⟩ := List.forall_mem_cons.mp h
      have hone : 0 < (shownText line).count '\n' :=
        List.count_pos_iff.mpr (List.mem_cons_of_mem _ (List.mem_of_getLast? hline))
      rw [List.length_cons, List.flatMap_cons, List.count_append]
      have hrest := ih hls
      omega

theorem lineCount_le_count
    {hunks : List Hunk} (h : EndLines (hunks.map Hunk.shown)) :
    lineCount (hunks.map Hunk.shown) ≤ (hunks.flatMap Hunk.text).count '\n' := by
  induction hunks with
  | nil => exact Nat.zero_le _
  | cons hunk hunks ih =>
      obtain ⟨hhunk, hhunks⟩ := List.forall_mem_cons.mp h
      have hlines := length_le_count hhunk
      have hrest := ih hhunks
      rw [List.flatMap_cons, List.count_append, Hunk.text_eq, List.count_append,
        List.count_cons_self]
      rw [List.map_cons, lineCount]
      omega

/-- A patch is read back as the hunks that were written exactly when the path holds no newline and
every line shown ends with one. -/
theorem read?_text_iff
    {path : String} {old new : Text} (hne : hunks old.brokenLines new.brokenLines ≠ []) :
    read? (text path old new) = some ((hunks old.brokenLines new.brokenLines).map Hunk.shown) ↔
      '\n' ∉ path.toList ∧
        EndLines ((hunks old.brokenLines new.brokenLines).map Hunk.shown) := by
  constructor
  · intro h
    obtain ⟨hends, hcount⟩ := of_read? h (by simpa using hne)
    have hle := lineCount_le_count hends
    rw [text_eq_append path hne, List.count_append] at hcount
    refine ⟨fun hpath => ?_, hends⟩
    have hpos := List.count_pos_iff.mpr hpath
    have hhead : (ended (pathLines path)).count '\n' = 2 * path.toList.count '\n' + 2 := by
      simp [ended, pathLines]
      omega
    omega
  · rintro ⟨hpath, hends⟩
    have hends : ∀ hunk ∈ hunks old.brokenLines new.brokenLines, ∀ line ∈ hunk.shown.lines,
        line.2.getLast? = some '\n' := List.forall_mem_map.mp hends
    have htext : text path old new = ended (pathLines path ++
        (hunks old.brokenLines new.brokenLines).flatMap Hunk.written) := by
      rw [text_eq_append path hne, ended_append]
      refine congrArg _ ?_
      rw [ended, List.flatMap_assoc]
      exact List.flatMap_congr fun hunk hhunk => Hunk.text_eq_ended (hends hunk hhunk)
    have hlines : ∀ l ∈ pathLines path ++
        (hunks old.brokenLines new.brokenLines).flatMap Hunk.written, '\n' ∉ l := by
      intro l hl
      rcases List.mem_append.mp hl with hl | hl
      · rcases List.mem_pair.mp hl with rfl | rfl <;> simp [hpath]
      · obtain ⟨hunk, hhunk, hl⟩ := List.mem_flatMap.mp hl
        rcases List.mem_cons.mp hl with rfl | hl
        · exact newline_not_mem_header hunk
        · obtain ⟨line, hline, rfl⟩ := List.mem_map.mp hl
          exact newline_not_mem_writtenLine hhunk hline
    rw [htext, read?, endedLines?_ended hlines]
    simp [pathLines, readHunks_written hends]

end Patch

namespace Document

/-- The hunks of the patch that formatting makes. -/
def Comparison.hunks (c : Comparison) : List Patch.ShownHunk :=
  (Patch.hunks c.before.brokenLines c.formatted.brokenLines).map Patch.Hunk.shown

/-- Every line of the patch stands on a line of its own: the path holds no newline, and every line
shown ends with one. -/
structure Comparison.HasOwnLines (c : Comparison) : Prop where
  newline_not_mem_path : '\n' ∉ c.path.text.toList
  endLines : Patch.EndLines c.hunks

theorem Comparison.HasOwnLines.of_brokenLines
    {c : Comparison} (hpath : '\n' ∉ c.path.text.toList)
    (hbefore : ∀ line ∈ c.before.brokenLines, line.getLast? = some '\n')
    (hformatted : ∀ line ∈ c.formatted.brokenLines, line.getLast? = some '\n') :
    c.HasOwnLines where
  newline_not_mem_path := hpath
  endLines := by
    refine List.forall_mem_map.mpr fun hunk hhunk line hline => ?_
    rcases Patch.mem_of_mem_hunks hhunk hline with hmem | hmem
    · exact hbefore _ hmem
    · exact hformatted _ hmem

theorem Comparison.applied_hunks (c : Comparison) :
    Patch.applied 0 0 c.hunks c.before.brokenLines = some c.formatted.brokenLines :=
  Patch.applied_hunks _ _

/-- Texts that differ have a hunk. -/
theorem Comparison.hunks_ne_nil
    {c : Comparison} (h : c.formatted ≠ c.before) :
    Patch.hunks c.before.brokenLines c.formatted.brokenLines ≠ [] := by
  intro hnil
  have happlied := c.applied_hunks
  rw [Comparison.hunks, hnil] at happlied
  have hlines : c.before.brokenLines = c.formatted.brokenLines := Option.some.inj happlied
  apply h
  rw [← Text.flatten_brokenLines c.formatted, ← hlines, Text.flatten_brokenLines]

/-- The hunks of a comparison always lead from the text before to the formatted one, and without a
difference there is no patch.  The text of the patch gives the hunks back exactly when each of its
lines stands on a line of its own; then reading it and applying the hunks formats the text. -/
theorem patch_read_back_iff_hasOwnLines (c : Comparison) :
    (c.formatted = c.before → c.patch = []) ∧
      (c.formatted ≠ c.before → (Patch.read? c.patch = some c.hunks ↔ c.HasOwnLines)) ∧
      (c.HasOwnLines → Patch.patched? c.patch c.before = some c.formatted) ∧
      Patch.applied 0 0 c.hunks c.before.brokenLines = some c.formatted.brokenLines := by
  have hsame : c.formatted = c.before → c.patch = [] := by
    intro heq
    rw [Comparison.patch, heq]
    exact Patch.text_self _ _
  have hread : c.formatted ≠ c.before →
      (Patch.read? c.patch = some c.hunks ↔ c.HasOwnLines) := fun hne =>
    (Patch.read?_text_iff (Comparison.hunks_ne_nil hne)).trans
      ⟨fun h => ⟨h.1, h.2⟩, fun h => ⟨h.1, h.2⟩⟩
  refine ⟨hsame, hread, fun hown => ?_, c.applied_hunks⟩
  by_cases heq : c.formatted = c.before
  · rw [hsame heq, heq]
    exact congrArg some (Text.flatten_brokenLines c.before)
  · rw [Patch.patched?, (hread heq).mpr hown, Option.bind_eq_bind, Option.bind_some,
      c.applied_hunks]
    exact congrArg some (Text.flatten_brokenLines c.formatted)

/-- A comparison of texts that end with a newline. -/
def endedComparison : Comparison where
  path := Path.ofString "a.fubelt"
  before := "<div>\n<p>x</p>\n</div>\n".toList
  formatted := "<div>\n\t<p>x</p>\n</div>\n".toList

theorem patch_read_back_ended :
    endedComparison.formatted ≠ endedComparison.before ∧ endedComparison.HasOwnLines ∧
      Patch.read? endedComparison.patch = some endedComparison.hunks ∧
      Patch.patched? endedComparison.patch endedComparison.before =
        some endedComparison.formatted := by
  have hne : endedComparison.formatted ≠ endedComparison.before := by decide
  have hown : endedComparison.HasOwnLines :=
    .of_brokenLines (by decide +kernel) (by decide +kernel) (by decide +kernel)
  obtain ⟨-, hread, hpatched, -⟩ := patch_read_back_iff_hasOwnLines endedComparison
  exact ⟨hne, hown, (hread hne).mpr hown, hpatched hown⟩

/-- The last line of both texts has no newline, so the two lines shown for it are pasted
together. -/
def pastedComparison : Comparison where
  path := Path.ofString "a.fubelt"
  before := "<div>\n<p>x</p>".toList
  formatted := "<div>\n\t<p>x</p>".toList

theorem patch_pastedComparison :
    pastedComparison.formatted ≠ pastedComparison.before ∧
      pastedComparison.patch =
        ("--- a.fubelt (original)\n+++ a.fubelt (formatted)\n@@ -1,2 +1,2 @@\n <div>\n" ++
          "-<p>x</p>+\t<p>x</p>").toList ∧
      Patch.patched? pastedComparison.patch pastedComparison.before = none := by
  have htext : pastedComparison.patch =
      ("--- a.fubelt (original)\n+++ a.fubelt (formatted)\n@@ -1,2 +1,2 @@\n <div>\n" ++
        "-<p>x</p>+\t<p>x</p>").toList := by
    cbv
  refine ⟨by decide, htext, ?_⟩
  rw [htext]
  decide +kernel

end Document
end Reindent
