import Reindent.Assist.Word
import Reindent.Proofs.Markup.Scan

/-!
# Scanning a line for words

The words of a line are found from left to right.  Two spellings compete where a word can start: a
number with a decimal point, which may begin with characters that end every other word, and a plain
word.  A number is preferred, and both go on as far as they can.  `FindsWords` is this rule as a
relation, with the two spellings given by `StartsWord`, and `words` is its one solution.

What is known of the words follows from the relation: they are not empty, they do not overlap, and
no character that can stand in a plain word is left over.
-/

namespace Reindent
namespace Assist

/-! ## The spelling of a word -/

/-- A number: an optional sign, any digits, a point, a digit, and any word characters. -/
def IsNumber (t : Text) : Prop :=
  ∃ (sign whole : Text) (d : Char) (tail : Text),
    t = sign ++ whole ++ '.' :: d :: tail ∧ (sign = [] ∨ sign = ['-']) ∧
      (∀ c ∈ whole, c.isDigit = true) ∧ d.isDigit = true ∧ ∀ c ∈ tail, isWordChar c = true

/-- The word that starts a text, where `rest` is the text behind it. -/
inductive StartsWord (word rest : Text) : Prop
  | number (hnumber : IsNumber word) (hrest : ∀ c ∈ rest.head?, isWordChar c = false)
  | plain (hnone : ∀ number more, word ++ rest = number ++ more → ¬ IsNumber number)
      (hne : word ≠ []) (hword : ∀ c ∈ word, isWordPart c = true)
      (hrest : ∀ c ∈ rest.head?, isWordPart c = false)

theorem isWordPart_of_isWordChar
    {c : Char} (hc : isWordChar c = true) :
    isWordPart c = true := by
  have hpunctuation : punctuation.any isWordChar = false := by decide
  have hspaces : [' ', '\t', '\n', '\r', '\x0b', '\x0c'].any isWordChar = false := by decide
  rw [isWordPart, Bool.and_eq_true, Bool.not_eq_true', Bool.not_eq_true']
  constructor
  · by_contra hmem
    rw [Bool.not_eq_false, List.contains_iff_mem] at hmem
    exact List.any_eq_false.mp hpunctuation c hmem hc
  · by_contra hspace
    simp only [Bool.not_eq_false, isSpace, Bool.or_eq_true, decide_eq_true_eq, or_assoc] at hspace
    exact List.any_eq_false.mp hspaces c (by simpa using hspace) hc

theorem isWordChar_of_isDigit
    {c : Char} (hc : c.isDigit = true) :
    isWordChar c = true := by
  simp [isWordChar, Char.isAlphanum, hc]

/-- A number is read from the sign to the end of its word characters. -/
theorem numberHere?_append
    {sign whole : Text} {d : Char} (hsign : sign = [] ∨ sign = ['-'])
    (hwhole : ∀ c ∈ whole, c.isDigit = true) (hd : d.isDigit = true) (rest : Text) :
    numberHere? (sign ++ whole ++ '.' :: d :: rest) =
      some (sign ++ whole ++ '.' :: d :: rest.takeWhile isWordChar) := by
  have hpoint : ∀ c ∈ ('.' :: d :: rest).head?, c.isDigit = false := by
    intro c hc
    obtain rfl : '.' = c := by simpa using hc
    rfl
  obtain ⟨htake, hdrop⟩ := Markup.takeWhile_dropWhile_append hwhole hpoint
  rcases hsign with rfl | rfl
  · have hfirst : ∀ more, whole ++ '.' :: d :: rest ≠ '-' :: more := by
      intro more heq
      cases whole with
      | nil => simp at heq
      | cons c whole =>
          obtain ⟨rfl, -⟩ := List.cons.inj heq
          exact absurd (hwhole _ List.mem_cons_self) (by decide)
    simp [numberHere?, htake, hdrop, hd]
  · simp [numberHere?, htake, hdrop, hd]

theorem eq_false_of_mem_head?_dropWhile
    {p : Char → Bool} {text : Text} {c : Char} (hc : c ∈ (text.dropWhile p).head?) :
    p c = false := by
  have hstop := List.head?_dropWhile_not p text
  rw [Option.mem_def.mp hc] at hstop
  exact hstop

/-- The parts that reading a number finds make up a number. -/
theorem exists_number_of_dropWhile
    {sign unsigned : Text} (hsign : sign = [] ∨ sign = ['-']) {d : Char} {more : Text}
    (hdrop : unsigned.dropWhile Char.isDigit = '.' :: d :: more) (hd : d.isDigit = true) :
    ∃ rest, sign ++ unsigned =
        sign ++ unsigned.takeWhile Char.isDigit ++ '.' :: d :: more.takeWhile isWordChar ++ rest ∧
      IsNumber (sign ++ unsigned.takeWhile Char.isDigit ++ '.' :: d :: more.takeWhile isWordChar) ∧
      ∀ c ∈ rest.head?, isWordChar c = false := by
  refine ⟨more.dropWhile isWordChar, ?_, ?_, ?_⟩
  · conv_lhs => rw [← List.takeWhile_append_dropWhile (p := Char.isDigit) (l := unsigned), hdrop,
      ← List.takeWhile_append_dropWhile (p := isWordChar) (l := more)]
    simp only [List.append_assoc, List.cons_append]
  · exact ⟨sign, _, d, _, rfl, hsign, fun c hc => List.mem_takeWhile_imp hc, hd,
      fun c hc => List.mem_takeWhile_imp hc⟩
  · exact fun c hc => eq_false_of_mem_head?_dropWhile hc

theorem numberHere?_eq_some
    {text number : Text} (h : numberHere? text = some number) :
    ∃ rest, text = number ++ rest ∧ IsNumber number ∧ ∀ c ∈ rest.head?, isWordChar c = false := by
  unfold numberHere? at h
  split at h
  next sign unsigned hsplit =>
  have hparts : text = sign ++ unsigned ∧ (sign = [] ∨ sign = ['-']) := by
    split at hsplit <;> cases hsplit <;> simp
  obtain ⟨rfl, hsign⟩ := hparts
  dsimp only at h
  split at h
  · next d more hdrop =>
    split at h
    · next hd =>
      rw [← Option.some.inj h]
      exact exists_number_of_dropWhile hsign hdrop hd
    · cases h
  · cases h

theorem numberHere?_eq_none_iff (text : Text) :
    numberHere? text = none ↔ ∀ number more, text = number ++ more → ¬ IsNumber number := by
  constructor
  · rintro hnone number more rfl ⟨sign, whole, d, tail, rfl, hsign, hwhole, hd, -⟩
    rw [List.append_assoc, List.cons_append, List.cons_append,
      numberHere?_append hsign hwhole hd] at hnone
    cases hnone
  · intro hnone
    cases hnumber : numberHere? text with
    | none => rfl
    | some number =>
        obtain ⟨rest, htext, hspelling, -⟩ := numberHere?_eq_some hnumber
        exact absurd hspelling (hnone number rest htext)

/-- A word is read where one starts, as far as its spelling goes. -/
theorem wordHere?_eq_some_iff {text word : Text} :
    wordHere? text = some word ↔ ∃ rest, text = word ++ rest ∧ StartsWord word rest := by
  constructor
  · intro h
    unfold wordHere? at h
    split at h
    · next number hnumber =>
      obtain ⟨rest, htext, hspelling, hrest⟩ := numberHere?_eq_some hnumber
      rw [← Option.some.inj h]
      exact ⟨rest, htext, .number hspelling hrest⟩
    · next hnone =>
      split at h
      · cases h
      · next hne =>
        have htext : text.takeWhile isWordPart ++ text.dropWhile isWordPart = text :=
          List.takeWhile_append_dropWhile
        rw [← Option.some.inj h]
        refine ⟨text.dropWhile isWordPart, htext.symm, .plain ?_ hne ?_ ?_⟩
        · rw [htext]
          exact (numberHere?_eq_none_iff text).mp hnone
        · exact fun c hc => List.mem_takeWhile_imp hc
        · exact fun c hc => eq_false_of_mem_head?_dropWhile hc
  · rintro ⟨rest, rfl, hword⟩
    cases hword with
    | number hnumber hrest =>
        obtain ⟨sign, whole, d, tail, rfl, hsign, hwhole, hd, htail⟩ := hnumber
        have hread := numberHere?_append hsign hwhole hd (tail ++ rest)
        rw [(Markup.takeWhile_dropWhile_append htail hrest).1] at hread
        rw [List.append_assoc, List.cons_append, List.cons_append, wordHere?, hread]
    | plain hnone hne hword hrest =>
        have htake := (Markup.takeWhile_dropWhile_append hword hrest).1
        obtain ⟨c, tail, rfl⟩ := List.exists_cons_of_ne_nil hne
        rw [wordHere?, (numberHere?_eq_none_iff _).mpr hnone, htake]

theorem wordHere?_eq_none_of_not_startsWord
    {text : Text} (hnone : ∀ word more, text = word ++ more → ¬ StartsWord word more) :
    wordHere? text = none := by
  cases hread : wordHere? text with
  | none => rfl
  | some word =>
      obtain ⟨more, hcut, hword⟩ := wordHere?_eq_some_iff.mp hread
      exact absurd hword (hnone word more hcut)

/-- Where no word starts, the next character cannot stand in a plain word. -/
theorem isWordPart_eq_false_of_wordHere?
    {c : Char} {rest : Text} (h : wordHere? (c :: rest) = none) :
    isWordPart c = false := by
  by_contra hc
  rw [Bool.not_eq_false] at hc
  rw [wordHere?] at h
  split at h
  · cases h
  · rw [List.takeWhile_cons, if_pos hc] at h
    cases h

theorem StartsWord.ne_nil
    {word rest : Text} (hword : StartsWord word rest) :
    word ≠ [] := by
  cases hword with
  | number hnumber =>
      obtain ⟨sign, whole, d, tail, rfl, -⟩ := hnumber
      simp
  | plain _ hne => exact hne

/-- A word of either spelling takes all the word characters that follow it. -/
theorem StartsWord.isWordChar_head
    {word rest : Text} (hword : StartsWord word rest) :
    ∀ c ∈ rest.head?, isWordChar c = false := by
  cases hword with
  | number _ hrest => exact hrest
  | plain _ _ _ hrest =>
      intro c hc
      by_contra hchar
      rw [Bool.not_eq_false] at hchar
      have hpart := isWordPart_of_isWordChar hchar
      rw [hrest c hc] at hpart
      cases hpart

theorem isDigit_eq_false_of_isAlpha
    {c : Char} (hc : c.isAlpha = true) :
    c.isDigit = false := by
  by_contra hdigit
  delta Char.isAlpha Char.isUpper Char.isLower at hc
  simp [Char.isDigit, UInt32.le_iff_toNat_le] at hc hdigit
  omega

/-- Inside a word only the sign and the point of a number end a plain word, and neither of them has
a letter behind it. -/
theorem StartsWord.isWordPart_of_letter
    {word rest front back : Text} {x c : Char} (hword : StartsWord word rest)
    (hcut : word = front ++ x :: c :: back) (hc : c.isAlpha = true) :
    isWordPart x = true := by
  cases hword with
  | plain _ _ hword =>
      apply hword
      rw [hcut]
      simp
  | number hnumber =>
      obtain ⟨sign, whole, d, tail, rfl, hsign, hwhole, hd, htail⟩ := hnumber
      have hdigit : ∀ e : Char, e.isDigit = true → c ≠ e := by
        rintro e he rfl
        rw [isDigit_eq_false_of_isAlpha hc] at he
        cases he
      have hsplit : (sign ++ whole ++ ['.']) ++ (d :: tail) = (front ++ [x]) ++ (c :: back) := by
        simpa using hcut
      -- The letter stands behind the digit after the point, so the character before it does not
      -- stand before that digit.
      rcases List.append_eq_append_iff.mp hsplit with ⟨more, hfront, hback⟩ | ⟨more, hfront, hback⟩
      · rcases List.eq_nil_or_concat more with rfl | ⟨more, y, rfl⟩
        · exact absurd (List.cons.inj hback).1.symm (hdigit d hd)
        · rw [List.concat_eq_append, ← List.append_assoc] at hfront
          obtain rfl : x = y := List.singleton_inj.mp (List.append_inj_right' hfront rfl)
          have hmem : x ∈ d :: tail := by
            rw [hback]
            simp
          rcases List.mem_cons.mp hmem with rfl | hmem
          · exact isWordPart_of_isWordChar (isWordChar_of_isDigit hd)
          · exact isWordPart_of_isWordChar (htail x hmem)
      · cases more with
        | nil => exact absurd (List.cons.inj hback).1 (hdigit d hd)
        | cons e more =>
            obtain rfl : c = e := (List.cons.inj hback).1
            have hmem : c ∈ sign ++ whole ++ ['.'] := by
              rw [hfront]
              simp
            rw [List.mem_append, List.mem_append, List.mem_singleton] at hmem
            rcases hmem with (hmem | hmem) | rfl
            · rcases hsign with rfl | rfl
              · cases hmem
              · rw [List.mem_singleton.mp hmem] at hc
                exact absurd hc (by decide)
            · exact absurd rfl (hdigit c (hwhole c hmem))
            · exact absurd hc (by decide)

/-! ## The scan -/

/-- The words found in a text that stands at a column. -/
inductive FindsWords : ℕ → Text → List Word → Prop where
  | nil (column : ℕ) : FindsWords column [] []
  | pass {column : ℕ} {c : Char} {rest : Text} {found : List Word} :
      (∀ word more, c :: rest = word ++ more → ¬ StartsWord word more) →
        FindsWords (column + 1) rest found → FindsWords column (c :: rest) found
  | word {column : ℕ} {word rest : Text} {found : List Word} :
      StartsWord word rest → FindsWords (column + word.length) rest found →
        FindsWords column (word ++ rest)
          ({ start := column, stop := column + word.length, text := word } :: found)

theorem wordsFrom_eq_drop (column skip : ℕ) (text : Text) :
    wordsFrom column skip text = wordsFrom (column + skip) 0 (text.drop skip) := by
  induction text generalizing column skip with
  | nil => simp [wordsFrom]
  | cons c rest ih =>
      cases skip with
      | zero => rfl
      | succ skip => rw [wordsFrom, ih, List.drop_succ_cons, Nat.add_right_comm, Nat.add_assoc]

theorem wordsFrom_cons_of_none
    {c : Char} {rest : Text} (h : wordHere? (c :: rest) = none) (column : ℕ) :
    wordsFrom column 0 (c :: rest) = wordsFrom (column + 1) 0 rest := by
  rw [wordsFrom, h]

theorem wordsFrom_append_of_startsWord
    {word rest : Text} (hword : StartsWord word rest) (column : ℕ) :
    wordsFrom column 0 (word ++ rest) =
      { start := column, stop := column + word.length, text := word } ::
        wordsFrom (column + word.length) 0 rest := by
  have hread := wordHere?_eq_some_iff.mpr ⟨rest, rfl, hword⟩
  obtain ⟨c, tail, rfl⟩ := List.exists_cons_of_ne_nil hword.ne_nil
  rw [List.cons_append] at hread ⊢
  have hcolumn : column + 1 + ((c :: tail).length - 1) = column + (c :: tail).length := by
    rw [List.length_cons]
    omega
  have hrest : (tail ++ rest).drop ((c :: tail).length - 1) = rest := by simp
  simp only [wordsFrom, hread]
  rw [wordsFrom_eq_drop, hcolumn, hrest]

theorem findsWords_wordsFrom (column : ℕ) (text : Text) :
    FindsWords column text (wordsFrom column 0 text) := by
  induction hlength : text.length using Nat.strong_induction_on generalizing column text with
  | _ n ih =>
      subst hlength
      cases text with
      | nil => exact .nil column
      | cons c rest =>
          cases hhere : wordHere? (c :: rest) with
          | none =>
              rw [wordsFrom_cons_of_none hhere]
              refine .pass ?_ (ih rest.length (by simp) _ _ rfl)
              intro word more hcut hword
              rw [wordHere?_eq_some_iff.mpr ⟨more, hcut, hword⟩] at hhere
              cases hhere
          | some word =>
              obtain ⟨more, hcut, hword⟩ := wordHere?_eq_some_iff.mp hhere
              rw [hcut, wordsFrom_append_of_startsWord hword]
              refine .word hword (ih more.length ?_ _ _ rfl)
              have hpos := List.length_pos_iff.mpr hword.ne_nil
              rw [hcut, List.length_append]
              omega

/-- The scan of a text has one result. -/
theorem FindsWords.eq_wordsFrom
    {column : ℕ} {text : Text} {found : List Word} (hscan : FindsWords column text found) :
    found = wordsFrom column 0 text := by
  induction hscan with
  | nil => rfl
  | @pass column c rest found hnone _ ih =>
      rw [ih, wordsFrom_cons_of_none (wordHere?_eq_none_of_not_startsWord hnone)]
  | word hword _ ih => rw [ih, wordsFrom_append_of_startsWord hword]

namespace FindsWords

variable {column : ℕ} {text : Text} {found : List Word}

/-- Each word found is cut out of the text where a word starts. -/
theorem exists_cut
    (hscan : FindsWords column text found) {word : Word} (hword : word ∈ found) :
    ∃ before rest, text = before ++ word.text ++ rest ∧ StartsWord word.text rest ∧
      word.start = column + before.length ∧ word.stop = word.start + word.text.length := by
  induction hscan with
  | nil => cases hword
  | @pass column c rest found _ _ ih =>
      obtain ⟨before, after, htext, hstarts, hstart, hstop⟩ := ih hword
      refine ⟨c :: before, after, by rw [htext]; rfl, hstarts, ?_, hstop⟩
      rw [hstart, List.length_cons]
      omega
  | @word column first rest found hfirst _ ih =>
      rcases List.mem_cons.mp hword with rfl | hword
      · exact ⟨[], rest, rfl, hfirst, rfl, rfl⟩
      · obtain ⟨before, after, htext, hstarts, hstart, hstop⟩ := ih hword
        refine ⟨first ++ before, after, ?_, hstarts, ?_, hstop⟩
        · rw [htext]
          simp only [List.append_assoc]
        · rw [hstart, List.length_append]
          omega

/-- The words found stand one behind the other. -/
theorem pairwise (hscan : FindsWords column text found) :
    found.Pairwise fun word later => word.stop ≤ later.start := by
  induction hscan with
  | nil => exact .nil
  | pass _ _ ih => exact ih
  | word _ hrest ih =>
      refine .cons (fun later hlater => ?_) ih
      obtain ⟨before, after, -, -, hstart, -⟩ := hrest.exists_cut hlater
      simp only
      omega

/-- Every character that can stand in a plain word lies in a word found. -/
theorem covers
    (hscan : FindsWords column text found) {i : ℕ} {c : Char} (hi : text[i]? = some c)
    (hc : isWordPart c = true) :
    ∃ word ∈ found, word.start ≤ column + i ∧ column + i < word.stop := by
  induction hscan generalizing i with
  | nil => simp at hi
  | @pass column d rest found hnone _ ih =>
      cases i with
      | zero =>
          obtain rfl : d = c := by simpa using hi
          have hhere := wordHere?_eq_none_of_not_startsWord hnone
          rw [isWordPart_eq_false_of_wordHere? hhere] at hc
          cases hc
      | succ i =>
          obtain ⟨word, hmem, hstart, hstop⟩ := ih (by simpa using hi)
          exact ⟨word, hmem, by omega, by omega⟩
  | @word column first rest found _ _ ih =>
      by_cases hlt : i < first.length
      · exact ⟨_, List.mem_cons_self, Nat.le_add_right _ _, Nat.add_lt_add_left hlt _⟩
      · rw [List.getElem?_append_right (by omega)] at hi
        obtain ⟨word, hmem, hstart, hstop⟩ := ih hi
        exact ⟨word, List.mem_cons_of_mem _ hmem, by omega, by omega⟩

end FindsWords

theorem findsWords_words (line : Text) :
    FindsWords 0 line (words line) :=
  findsWords_wordsFrom 0 line

/-- The words of a line are what the scan finds, and nothing else is. -/
theorem findsWords_iff {line : Text} {found : List Word} :
    FindsWords 0 line found ↔ found = words line := by
  refine ⟨FindsWords.eq_wordsFrom, ?_⟩
  rintro rfl
  exact findsWords_words line

end Assist
end Reindent
