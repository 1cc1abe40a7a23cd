import Mathlib.Data.List.Pairwise
import Reindent.Proofs.Assist.WordScan
import Reindent.Proofs.Buffer.Line

/-!
# The word at a position

The word at a column is the first one that touches it.  Two words can touch a column, one with its
end and one with its start, but no word ends before a word character: so a word that begins with one
is never hidden by its neighbour.

A name of letters is one of the words exactly where the characters on both sides end a plain word.
Numbers are the reason why this needs a proof: they begin with a sign or a point, which end every
plain word, and they take the letters behind their digits along.
-/

namespace Reindent
namespace Assist

/-! ## Words and the characters around them -/

theorem exists_cut_of_mem_words
    {line : Text} {word : Word} (hword : word ∈ words line) :
    ∃ before rest, line = before ++ word.text ++ rest ∧ StartsWord word.text rest ∧
      word.start = before.length ∧ word.stop = word.start + word.text.length := by
  obtain ⟨before, rest, hline, hstarts, hstart, hstop⟩ := (findsWords_words line).exists_cut hword
  exact ⟨before, rest, hline, hstarts, by rw [hstart, Nat.zero_add], hstop⟩

/-- What stands in a line from the start of a word on. -/
theorem drop_start_of_mem_words
    {line : Text} {word : Word} (hword : word ∈ words line) :
    ∃ rest, line.drop word.start = word.text ++ rest ∧ StartsWord word.text rest := by
  obtain ⟨before, rest, rfl, hstarts, hstart, -⟩ := exists_cut_of_mem_words hword
  refine ⟨rest, ?_, hstarts⟩
  rw [hstart, List.append_assoc, List.drop_left]

/-- Two words of a line do not overlap. -/
theorem apart_of_mem_words
    {line : Text} {word other : Word} (hword : word ∈ words line) (hother : other ∈ words line)
    (hne : word ≠ other) :
    word.stop ≤ other.start ∨ other.stop ≤ word.start := by
  have hpairs : (words line).Pairwise fun w v => w.stop ≤ v.start ∨ v.stop ≤ w.start :=
    (findsWords_words line).pairwise.imp Or.inl
  have hsymm : Std.Symm fun w v : Word => w.stop ≤ v.start ∨ v.stop ≤ w.start :=
    ⟨fun _ _ => Or.symm⟩
  exact hpairs.forall hword hother hne

/-- The character behind a word is no word character. -/
theorem isWordChar_stop_of_mem_words
    {text : Text} {word : Word} (hword : word ∈ words text) {c : Char}
    (hc : text[word.stop]? = some c) :
    isWordChar c = false := by
  obtain ⟨before, rest, rfl, hstarts, hstart, hstop⟩ := exists_cut_of_mem_words hword
  apply hstarts.isWordChar_head
  rw [hstop, hstart, ← List.length_append, List.getElem?_append_right (Nat.le_refl _),
    Nat.sub_self] at hc
  rw [Option.mem_def, List.head?_eq_getElem?, hc]

/-! ## Names of letters -/

/-- The text begins and ends where a plain word would: the characters around it are absent or end a
word. -/
structure IsDelimited (before after : Text) : Prop where
  before_last : ∀ c ∈ before.getLast?, isWordPart c = false
  after_head : ∀ c ∈ after.head?, isWordPart c = false

/-- A text is started by one word only. -/
theorem StartsWord.eq_of_append_eq
    {word rest other more : Text} (hword : StartsWord word rest) (hother : StartsWord other more)
    (heq : word ++ rest = other ++ more) :
    word = other := by
  have hread := wordHere?_eq_some_iff.mpr ⟨rest, rfl, hword⟩
  rw [wordHere?_eq_some_iff.mpr ⟨more, heq, hother⟩] at hread
  exact (Option.some.inj hread).symm

/-- A number has a point in it. -/
theorem IsNumber.point_mem {t : Text} (ht : IsNumber t) : '.' ∈ t := by
  obtain ⟨sign, whole, d, tail, rfl, -⟩ := ht
  simp

/-- A character that ends a plain word is not followed by a letter inside a word. -/
theorem isWordPart_of_mem_words
    {init after : Text} {x c : Char} {word : Word} (hword : word ∈ words (init ++ x :: c :: after))
    (hstart : word.start ≤ init.length) (hstop : init.length + 1 < word.stop)
    (hc : c.isAlpha = true) :
    isWordPart x = true := by
  obtain ⟨front, rest, hline, hstarts, hfront, hlength⟩ := exists_cut_of_mem_words hword
  rw [List.append_assoc] at hline
  obtain ⟨more, rfl⟩ : front <+: init :=
    List.prefix_of_prefix_length_le ⟨_, hline.symm⟩ (List.prefix_append _ _) (by omega)
  rw [List.append_assoc, List.append_cancel_left_eq] at hline
  obtain ⟨back, hback⟩ : more ++ [x, c] <+: word.text := by
    refine List.prefix_of_prefix_length_le ⟨after, ?_⟩ (List.prefix_append word.text rest) ?_
    · simpa using hline
    · simp only [List.length_append, List.length_cons, List.length_nil] at hstop ⊢
      omega
  exact hstarts.isWordPart_of_letter (by simpa using hback.symm) hc

section

variable {name : Text} (hne : name ≠ []) (hname : ∀ c ∈ name, c.isAlpha = true)

include hname in
theorem isWordChar_of_mem_name {c : Char} (hc : c ∈ name) : isWordChar c = true := by
  simp [isWordChar, Char.isAlphanum, hname c hc]

include hne hname in
/-- No number starts with a letter. -/
theorem not_isNumber_of_append_eq
    {after number more : Text} (heq : name ++ after = number ++ more) :
    ¬ IsNumber number := by
  obtain ⟨c, tail, rfl⟩ := List.exists_cons_of_ne_nil hne
  have hc := hname c List.mem_cons_self
  rintro ⟨sign, whole, d, rest, rfl, hsign, hwhole, -⟩
  rcases hsign with rfl | rfl
  · cases whole with
    | nil =>
        obtain ⟨rfl, -⟩ := List.cons.inj heq
        exact absurd hc (by decide)
    | cons e whole =>
        obtain ⟨rfl, -⟩ := List.cons.inj heq
        have hdigit := hwhole c List.mem_cons_self
        rw [isDigit_eq_false_of_isAlpha hc] at hdigit
        cases hdigit
  · obtain ⟨rfl, -⟩ := List.cons.inj heq
    exact absurd hc (by decide)

include hne hname in
theorem startsWord_name_iff (after : Text) :
    StartsWord name after ↔ ∀ c ∈ after.head?, isWordPart c = false := by
  constructor
  · intro hstarts
    cases hstarts with
    | number hnumber => exact absurd (hname _ hnumber.point_mem) (by decide)
    | plain _ _ _ hafter => exact hafter
  · intro hafter
    exact .plain (fun number more heq => not_isNumber_of_append_eq hne hname heq) hne
      (fun c hc => isWordPart_of_isWordChar (isWordChar_of_mem_name hname hc)) hafter

include hne hname in
theorem isDelimited_of_mem_words
    {before after : Text}
    (hmem : { start := before.length, stop := before.length + name.length, text := name } ∈
      words (before ++ name ++ after)) :
    IsDelimited before after := by
  obtain ⟨front, rest, hline, hstarts, hstart, -⟩ := exists_cut_of_mem_words hmem
  rw [List.append_assoc, List.append_assoc] at hline
  obtain ⟨rfl, hrest⟩ := List.append_inj hline hstart
  obtain rfl := List.append_cancel_left hrest
  refine ⟨fun c hc => ?_, (startsWord_name_iff hne hname after).mp hstarts⟩
  -- A word that reached up to the name would end before its first letter.
  by_contra hpart
  rw [Bool.not_eq_false] at hpart
  obtain ⟨init, rfl⟩ := List.getLast?_eq_some_iff.mp hc
  have hlast : (init ++ [c] ++ name ++ after)[init.length]? = some c := by simp
  obtain ⟨word, hword, hle, hlt⟩ := (findsWords_words _).covers hlast hpart
  have hother : word ≠
      { start := (init ++ [c]).length
        stop := (init ++ [c]).length + name.length
        text := name } := by
    rintro rfl
    simp only [List.length_append, List.length_singleton] at hle
    omega
  have hstop : word.stop = (init ++ [c]).length := by
    have hapart := apart_of_mem_words hword hmem hother
    simp only [List.length_append, List.length_singleton] at hapart ⊢
    omega
  obtain ⟨first, tail, rfl⟩ := List.exists_cons_of_ne_nil hne
  have hend := isWordChar_stop_of_mem_words hword (c := first) (by simp [hstop])
  rw [isWordChar_of_mem_name hname List.mem_cons_self] at hend
  cases hend

include hne hname in
theorem mem_words_of_isDelimited
    {before after : Text} (h : IsDelimited before after) :
    { start := before.length, stop := before.length + name.length, text := name } ∈
      words (before ++ name ++ after) := by
  have hstarts := (startsWord_name_iff hne hname after).mpr h.after_head
  obtain ⟨first, tail, rfl⟩ := List.exists_cons_of_ne_nil hne
  have hpart := isWordPart_of_isWordChar (isWordChar_of_mem_name hname List.mem_cons_self)
  obtain ⟨word, hword, hle, hlt⟩ :=
    (findsWords_words (before ++ first :: tail ++ after)).covers
      (i := before.length) (by simp) hpart
  rw [Nat.zero_add] at hle hlt
  have hat : word.start = before.length := by
    rcases List.eq_nil_or_concat before with rfl | ⟨init, x, rfl⟩
    · exact Nat.le_zero.mp hle
    · -- Otherwise the word would hold the character before the name and the first letter.
      by_contra hne
      simp only [List.concat_eq_append, List.length_append, List.length_singleton,
        List.append_assoc, List.cons_append] at hle hlt hne hword
      have hbefore := isWordPart_of_mem_words hword (by omega) hlt (hname first List.mem_cons_self)
      rw [h.before_last x (by simp)] at hbefore
      cases hbefore
  obtain ⟨front, rest, hline, hfound, hstart, hstop⟩ := exists_cut_of_mem_words hword
  rw [List.append_assoc, List.append_assoc] at hline
  obtain ⟨-, hrest⟩ := List.append_inj hline (by rw [← hstart, hat])
  have htext := hfound.eq_of_append_eq hstarts hrest.symm
  obtain ⟨start, stop, text⟩ := word
  simp only at hat hstop htext
  subst hat htext hstop
  exact hword

end

/-! ## The word that a column touches -/

/-- The column lies in the word or at one of its ends. -/
def Word.Touches (word : Word) (column : Int) : Prop :=
  word.start ≤ column ∧ column ≤ word.stop

theorem wordTouching?_eq_some_iff {line : Text} {column : Int} {word : Word} :
    wordTouching? line column = some word ↔
      word.Touches column ∧ ∃ before after, words line = before ++ word :: after ∧
        ∀ earlier ∈ before, ¬ earlier.Touches column := by
  rw [wordTouching?, List.find?_eq_some_iff_append]
  simp only [Bool.not_eq_true', ← Bool.not_eq_true, Bool.and_eq_true, decide_eq_true_eq]
  exact Iff.rfl

theorem mem_words_of_wordTouching?
    {line : Text} {column : Int} {word : Word} (h : wordTouching? line column = some word) :
    word ∈ words line :=
  List.mem_of_find?_eq_some h

/-- A column without a word has no character of a plain word on either side. -/
theorem isWordPart_of_wordTouching?_eq_none
    {text : Text} {column : Int} (h : wordTouching? text column = none) {i : ℕ} {c : Char}
    (hc : text[i]? = some c) (hi : (i : Int) = column ∨ (i : Int) + 1 = column) :
    isWordPart c = false := by
  by_contra hpart
  rw [Bool.not_eq_false] at hpart
  obtain ⟨word, hword, hstart, hstop⟩ := (findsWords_words text).covers hc hpart
  have hnone := List.find?_eq_none.mp h word hword
  simp only [Bool.and_eq_true, decide_eq_true_eq] at hnone
  omega

/-- A word that begins with a word character is not hidden by the word before it. -/
theorem wordTouching?_eq_of_mem
    {text : Text} {word : Word} (hword : word ∈ words text)
    (hfirst : ∀ c ∈ word.text.head?, isWordChar c = true) {column : Int}
    (htouches : word.Touches column) :
    wordTouching? text column = some word := by
  cases hfound : wordTouching? text column with
  | none =>
      have hnone := List.find?_eq_none.mp hfound word hword
      exact absurd htouches (by simpa [Word.Touches] using hnone)
  | some first =>
      obtain ⟨hcolumn, before, after, hwords, hearlier⟩ := wordTouching?_eq_some_iff.mp hfound
      have hplace := hword
      rw [hwords, List.mem_append, List.mem_cons] at hplace
      rcases hplace with hplace | rfl | hplace
      · exact absurd htouches (hearlier word hplace)
      · rfl
      · -- The first word would end where this one begins.
        have hpairs := (findsWords_words text).pairwise
        rw [hwords, List.pairwise_append, List.pairwise_cons] at hpairs
        have hle := hpairs.2.1.1 word hplace
        have hstop : first.stop = word.start := by
          rw [Word.Touches] at htouches hcolumn
          omega
        obtain ⟨rest, hdrop, hstarts⟩ := drop_start_of_mem_words hword
        obtain ⟨c, tail, htext⟩ := List.exists_cons_of_ne_nil hstarts.ne_nil
        have hc : text[first.stop]? = some c := by
          rw [hstop, ← Nat.add_zero word.start, ← List.getElem?_drop, hdrop, htext]
          rfl
        have hend := isWordChar_stop_of_mem_words (mem_words_of_wordTouching? hfound) hc
        rw [hfirst c (by rw [htext]; rfl)] at hend
        cases hend

/-! ## Words of a buffer -/

/-- The line is shown as the front of what stands in the text. -/
theorem withoutReturns_prefix (line : Text) :
    Buffer.withoutReturns line <+: line := by
  obtain ⟨returns, hreturns⟩ := List.dropWhile_suffix (l := line.reverse) (· = '\r')
  refine ⟨returns.reverse, ?_⟩
  rw [Buffer.withoutReturns, ← List.reverse_append, hreturns, List.reverse_reverse]

/-- A line that exists is one of the lines of the text. -/
theorem exists_of_lineAt
    {text : Text} {number : Int} {line : Buffer.Line} (h : Buffer.lineAt text number = .ok line) :
    ∃ (n : ℕ) (hn : n < text.lines.length), number = n ∧
      line.text = Buffer.withoutReturns text.lines[n] := by
  by_cases hrange : number < 0 ∨ (Buffer.lineCount text : Int) ≤ number
  · rw [Buffer.lineAt_of_not_lt hrange] at h
    cases h
  · rw [not_or, Buffer.lineCount] at hrange
    obtain ⟨n, rfl⟩ := Int.eq_ofNat_of_zero_le (Int.not_lt.mp hrange.1)
    have hn : n < text.lines.length := by omega
    rw [Buffer.lineAt_of_lt hn] at h
    refine ⟨n, hn, rfl, ?_⟩
    rw [← Except.ok.inj h]

/-- The span of a word in a line of a buffer. -/
def Word.span (word : Word) (line : Int) : Span :=
  { start := { line, character := word.start }, stop := { line, character := word.stop } }

/-- The text in the span of a word is the word. -/
theorem textIn_span
    {text : Text} {number : Int} {line : Buffer.Line} (h : Buffer.lineAt text number = .ok line)
    {word : Word} (hword : word ∈ words line.text) :
    Buffer.textIn text (word.span number) = word.text := by
  obtain ⟨n, hn, rfl, hline⟩ := exists_of_lineAt h
  obtain ⟨before, rest, hcut, -, hstart, hstop⟩ := exists_cut_of_mem_words hword
  obtain ⟨returns, hreturns⟩ := withoutReturns_prefix text.lines[n]
  obtain ⟨after, hafter⟩ := Buffer.exists_eq_ended_append_line hn
  rw [← hline, hcut] at hreturns
  have hfits : before.length + word.text.length ≤ text.lines[n].length := by
    rw [← hreturns]
    simp
  have hoffset : ∀ k : ℕ, k ≤ text.lines[n].length →
      Buffer.offsetAt text { line := n, character := k } =
        (Text.ended (text.lines.take n)).length + k := by
    intro k hk
    rw [Buffer.offsetAt_of_lt hn, Buffer.lineStart_eq]
    simp [Buffer.clamp, hk]
  have hdrop : text.drop ((Text.ended (text.lines.take n)).length + before.length) =
      word.text ++ (rest ++ (returns ++ after)) := by
    calc
      text.drop ((Text.ended (text.lines.take n)).length + before.length) =
          (Text.ended (text.lines.take n) ++ (text.lines[n] ++ after)).drop
            ((Text.ended (text.lines.take n)).length + before.length) := by rw [← hafter]
      _ = (before ++ (word.text ++ (rest ++ (returns ++ after)))).drop before.length := by
        rw [List.drop_length_add_append, ← hreturns]
        simp only [List.append_assoc]
      _ = word.text ++ (rest ++ (returns ++ after)) := List.drop_left
  rw [Buffer.textIn, Word.span, hstop, hstart, hoffset _ (by omega), hoffset _ hfits, Buffer.slice,
    hdrop, List.take_append_of_le_length (by omega)]
  exact List.take_of_length_le (by omega)

theorem wordAt_of_lineAt
    {text : Text} {position : Position} {line : Buffer.Line}
    (h : Buffer.lineAt text position.line = .ok line) :
    wordAt text position = .ok (wordTouching? line.text position.character) := by
  rw [wordAt, h]
  rfl

theorem wordSpanAt_of_lineAt
    {text : Text} {position : Position} {line : Buffer.Line}
    (h : Buffer.lineAt text position.line = .ok line) :
    wordSpanAt text position =
      .ok ((wordTouching? line.text position.character).map (Word.span · position.line)) := by
  rw [wordSpanAt, wordAt_of_lineAt h]
  rfl

/-- A word is described by what stands in its span. -/
theorem describe_of_lineAt
    {text : Text} {position : Position} {line : Buffer.Line}
    (h : Buffer.lineAt text position.line = .ok line) :
    describe text position =
      .ok ((wordTouching? line.text position.character).bind fun word =>
        descriptions.lookup (Buffer.textIn text (word.span position.line))) := by
  rw [describe, wordSpanAt_of_lineAt h]
  exact congrArg Except.ok (Option.bind_map ..)

/-! ## The word with a description -/

theorem isSome_lookup_descriptions_iff (t : Text) :
    (∃ description, descriptions.lookup t = some description) ↔ t = "defMeta".toList := by
  rw [descriptions, List.lookup_cons]
  by_cases ht : t = "defMeta".toList
  · simp [ht]
  · have hne : (t == "defMeta".toList) = false := beq_eq_false_iff_ne.mpr ht
    simp only [hne, List.lookup_nil, reduceCtorEq, exists_false, ht]

/-- A line is cut where a part of it starts and where it stops. -/
theorem eq_append_of_slice_eq
    {line part : Text} {start : ℕ} (hne : part ≠ [])
    (h : Buffer.slice line start (start + part.length) = part) :
    line = line.take start ++ part ++ line.drop (start + part.length) ∧
      (line.take start).length = start := by
  rw [Buffer.slice, Nat.add_sub_cancel_left] at h
  have hlength := congrArg List.length h
  rw [List.length_take, List.length_drop] at hlength
  have hpos := List.length_pos_iff.mpr hne
  refine ⟨?_, List.length_take_of_le (by omega)⟩
  have hrest : part ++ line.drop (start + part.length) = line.drop start := by
    calc
      part ++ line.drop (start + part.length) =
          (line.drop start).take part.length ++ (line.drop start).drop part.length := by
        rw [h, List.drop_drop]
      _ = line.drop start := List.take_append_drop _ _
  rw [List.append_assoc, hrest, List.take_append_drop]

/-- A name of letters that stands in a line is one of its words exactly where it is delimited. -/
theorem mem_words_iff_isDelimited
    {line name : Text} {start : ℕ} (hne : name ≠ []) (hname : ∀ c ∈ name, c.isAlpha = true)
    (h : Buffer.slice line start (start + name.length) = name) :
    { start, stop := start + name.length, text := name } ∈ words line ↔
      IsDelimited (line.take start) (line.drop (start + name.length)) := by
  obtain ⟨hline, hstart⟩ := eq_append_of_slice_eq hne h
  constructor
  · intro hmem
    apply isDelimited_of_mem_words hne hname
    rwa [← hline, hstart]
  · intro hdelimited
    have hmem := mem_words_of_isDelimited hne hname hdelimited
    rwa [← hline, hstart] at hmem

/-- The words found in a line are not empty, they stand one behind the other, and every character
that can stand in a plain word lies in one of them. -/
structure IsCover (text : Text) (found : List Word) : Prop where
  start_lt_stop : ∀ word ∈ found, word.start < word.stop
  slice_eq : ∀ word ∈ found, Buffer.slice text word.start word.stop = word.text
  pairwise : found.Pairwise fun word later => word.stop ≤ later.start
  covers : ∀ (i : ℕ) (c : Char), text[i]? = some c → isWordPart c = true →
    ∃ word ∈ found, word.start ≤ i ∧ i < word.stop

theorem isCover_words (line : Text) :
    IsCover line (words line) where
  start_lt_stop word hword := by
    obtain ⟨before, rest, -, hstarts, -, hstop⟩ := exists_cut_of_mem_words hword
    have hpos := List.length_pos_iff.mpr hstarts.ne_nil
    omega
  slice_eq word hword := by
    obtain ⟨before, rest, -, -, -, hstop⟩ := exists_cut_of_mem_words hword
    obtain ⟨after, hdrop, -⟩ := drop_start_of_mem_words hword
    rw [Buffer.slice, hdrop, hstop, Nat.add_sub_cancel_left, List.take_left]
  pairwise := (findsWords_words line).pairwise
  covers i c hi hc := by
    obtain ⟨word, hword, hstart, hstop⟩ := (findsWords_words line).covers hi hc
    exact ⟨word, hword, by omega, by omega⟩

theorem letters_defMeta :
    ∀ c ∈ "defMeta".toList, c.isAlpha = true :=
  List.all_eq_true.mp (by decide)

/-- The column touches the described name, where that name is one of the words. -/
theorem exists_describe_iff
    {text : Text} {position : Position} {line : Buffer.Line}
    (hline : Buffer.lineAt text position.line = .ok line) :
    (∃ description, describe text position = .ok (some description)) ↔
      ∃ start : ℕ, start ≤ position.character ∧ position.character ≤ start + 7 ∧
        Buffer.slice line.text start (start + 7) = "defMeta".toList ∧
        { start, stop := start + 7, text := "defMeta".toList } ∈ words line.text := by
  rw [describe_of_lineAt hline]
  simp only [Except.ok.injEq, Option.bind_eq_some_iff]
  constructor
  · rintro ⟨description, word, hfound, hlookup⟩
    have hword := mem_words_of_wordTouching? hfound
    rw [textIn_span hline hword] at hlookup
    have htext := (isSome_lookup_descriptions_iff _).mp ⟨description, hlookup⟩
    obtain ⟨⟨hstart, hstop⟩, -⟩ := wordTouching?_eq_some_iff.mp hfound
    obtain ⟨before, rest, -, -, -, hlength⟩ := exists_cut_of_mem_words hword
    have hslice := (isCover_words line.text).slice_eq word hword
    obtain ⟨start, stop, found⟩ := word
    simp only at htext hlength hstart hstop hslice
    subst htext hlength
    exact ⟨start, hstart, hstop, hslice, hword⟩
  · rintro ⟨start, hstart, hstop, -, hword⟩
    obtain ⟨description, hlookup⟩ := (isSome_lookup_descriptions_iff "defMeta".toList).mpr rfl
    refine ⟨description, _, wordTouching?_eq_of_mem hword ?_ ⟨hstart, hstop⟩, ?_⟩
    · intro c hc
      exact isWordChar_of_mem_name letters_defMeta (List.mem_of_mem_head? hc)
    · rw [textIn_span hline hword]
      exact hlookup

/-- The words of a line cover every character of a plain word.  The word at a column is the first
one that touches it, and where there is none, neither neighbour of the column stands in a plain
word.
A description is given exactly on the name that has one, where this name is one of the words, and
it is one of them where it is delimited on both sides and no number takes it along. -/
theorem word_lookup_covers_and_describes
    {text : Text} {position : Position} {line : Buffer.Line}
    (hline : Buffer.lineAt text position.line = .ok line) :
    (∀ found, FindsWords 0 line.text found ↔ found = words line.text) ∧
      IsCover line.text (words line.text) ∧
      (∃ found, wordSpanAt text position = .ok (found.map (Word.span · position.line)) ∧
        (∀ word, found = some word ↔
          word.Touches position.character ∧
            ∃ before after, words line.text = before ++ word :: after ∧
              ∀ earlier ∈ before, ¬ earlier.Touches position.character) ∧
        (found = none → ∀ (i : ℕ) (c : Char), line.text[i]? = some c →
          ((i : Int) = position.character ∨ (i : Int) + 1 = position.character) →
            isWordPart c = false)) ∧
      ((∃ description, describe text position = .ok (some description)) ↔
        ∃ start : ℕ, start ≤ position.character ∧ position.character ≤ start + 7 ∧
          Buffer.slice line.text start (start + 7) = "defMeta".toList ∧
          { start, stop := start + 7, text := "defMeta".toList } ∈ words line.text) ∧
      ∀ start, Buffer.slice line.text start (start + 7) = "defMeta".toList →
        ({ start, stop := start + 7, text := "defMeta".toList } ∈ words line.text ↔
          IsDelimited (line.text.take start) (line.text.drop (start + 7)) ∧
            ¬ ∃ number ∈ words line.text, IsNumber number.text ∧ number.start < start ∧
              number.stop = start + 7) := by
  refine ⟨fun found => findsWords_iff, isCover_words _,
    ⟨_, wordSpanAt_of_lineAt hline, fun word => wordTouching?_eq_some_iff,
      fun hnone i c hc hi => isWordPart_of_wordTouching?_eq_none hnone hc hi⟩,
    exists_describe_iff hline, fun start hslice => ?_⟩
  have hdelimited := mem_words_iff_isDelimited (by decide) letters_defMeta hslice
  refine ⟨fun hword => ⟨hdelimited.mp hword, ?_⟩, fun h => hdelimited.mpr h.1⟩
  rintro ⟨number, hnumber, -, hbefore, hstop⟩
  have hapart := apart_of_mem_words hnumber hword (by rintro rfl; simp at hbefore)
  simp only at hapart
  omega

/-- A name behind a number, which takes it along, and behind a point, which does not. -/
def numberedNames : Text := "<p>\n-1.5defMeta .defMeta\r\n</p>".toList

theorem word_lookup_numberedNames :
    Buffer.lineAt numberedNames 1 =
        .ok { number := 1, text := "-1.5defMeta .defMeta".toList, firstNonBlank := 0 } ∧
      (∃ description, describe numberedNames { line := 1, character := 13 } =
        .ok (some description)) ∧
      ¬ ∃ description, describe numberedNames { line := 1, character := 4 } =
        .ok (some description) := by
  have hline : Buffer.lineAt numberedNames 1 =
      .ok { number := 1, text := "-1.5defMeta .defMeta".toList, firstNonBlank := 0 } := by decide
  refine ⟨hline, ?_, ?_⟩
  · obtain ⟨-, -, -, hdescribe, -⟩ :=
      @word_lookup_covers_and_describes numberedNames { line := 1, character := 13 } _ hline
    exact hdescribe.mpr ⟨13, by decide, by decide, by decide, by decide⟩
  · obtain ⟨-, -, -, hdescribe, -⟩ :=
      @word_lookup_covers_and_describes numberedNames { line := 1, character := 4 } _ hline
    have hplace : ∀ word ∈ words "-1.5defMeta .defMeta".toList,
        word.text = "defMeta".toList → word.start = 13 := by decide
    rw [hdescribe]
    rintro ⟨start, hstart, -, -, hword⟩
    obtain rfl : start = 13 := hplace _ hword rfl
    exact absurd hstart (by decide)

end Assist
end Reindent
