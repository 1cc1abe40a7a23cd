import Mathlib.Data.List.TakeWhile
import Reindent.Line.Recognizer

/-!
# The languages of the recognisers

Every recogniser of a line is a scan that never takes a step back: it commits itself to the first
`>` that it meets and to the whole of a run of spaces.  What it accepts can also be said without a
scan, as the lines that can be cut into parts of a given form, whichever way they are cut.  The two
agree because a part always ends before a character that cannot belong to it.
-/

namespace Reindent
namespace Line

/-! ## Characters -/

/-- The ASCII letters. -/
def IsLetter (c : Char) : Prop :=
  ('A'.toNat ≤ c.toNat ∧ c.toNat ≤ 'Z'.toNat) ∨ ('a'.toNat ≤ c.toNat ∧ c.toNat ≤ 'z'.toNat)

/-- The ASCII digits. -/
def IsDigit (c : Char) : Prop :=
  '0'.toNat ≤ c.toNat ∧ c.toNat ≤ '9'.toNat

/-- A text of ASCII spaces only. -/
def IsSpaces (t : Text) : Prop :=
  ∀ c ∈ t, c ∈ [' ', '\t', '\n', '\r', '\x0b', '\x0c']

theorem isAlpha_iff (c : Char) :
    c.isAlpha = true ↔ IsLetter c := by
  delta Char.isAlpha Char.isUpper Char.isLower
  simp [IsLetter, UInt32.le_iff_toNat_le]

theorem isDigit_iff (c : Char) :
    c.isDigit = true ↔ IsDigit c := by
  simp [Char.isDigit, IsDigit, UInt32.le_iff_toNat_le]

theorem isWordChar_iff (c : Char) :
    isWordChar c = true ↔ IsLetter c ∨ IsDigit c ∨ c = '_' := by
  simp [isWordChar, Char.isAlphanum, isAlpha_iff, isDigit_iff, or_assoc]

theorem isIdentifierStart_iff (c : Char) :
    isIdentifierStart c = true ↔ IsLetter c ∨ c = '_' ∨ c = '$' := by
  simp [isIdentifierStart, isAlpha_iff, or_assoc]

theorem isIdentifierChar_iff (c : Char) :
    isIdentifierChar c = true ↔ IsLetter c ∨ IsDigit c ∨ c = '_' ∨ c = '$' := by
  simp [isIdentifierChar, isWordChar_iff, or_assoc]

theorem isSpaces_iff (t : Text) :
    IsSpaces t ↔ ∀ c ∈ t, isSpace c = true := by
  simp [IsSpaces, isSpace, or_assoc]

theorem isSpaces_reverse {t : Text} (h : IsSpaces t) : IsSpaces t.reverse := by
  intro c hc
  exact h c (List.mem_reverse.mp hc)

/-- A space does not belong to an identifier. -/
theorem isIdentifierChar_of_isSpace
    {c : Char} (hc : isSpace c = true) :
    isIdentifierChar c = false := by
  simp only [isSpace, Bool.or_eq_true, decide_eq_true_eq] at hc
  rcases hc with ((((rfl | rfl) | rfl) | rfl) | rfl) | rfl <;> decide

/-! ## Where a scan stops -/

/-- A scan along the characters of a class stops at the first one outside it. -/
theorem dropWhile_eq_cons_iff
    {p : Char → Bool} {t rest : Text} {c : Char} :
    t.dropWhile p = c :: rest ↔
      ∃ front, t = front ++ c :: rest ∧ (∀ d ∈ front, p d = true) ∧ p c = false := by
  constructor
  · intro h
    refine ⟨t.takeWhile p, ?_, fun d hd => List.mem_takeWhile_imp hd, ?_⟩
    · rw [← h, List.takeWhile_append_dropWhile]
    · have hstop := List.head?_dropWhile_not p t
      simpa [h] using hstop
  · rintro ⟨front, rfl, hfront, hc⟩
    rw [List.dropWhile_append_of_pos hfront, List.dropWhile_cons_of_neg (by simp [hc])]

theorem continuesWith_iff
    {marks : List Char} (hmarks : marks.any isSpace = false) (t : Text) :
    continuesWith marks t = true ↔
      ∃ spaces mark rest, t = spaces ++ mark :: rest ∧ IsSpaces spaces ∧ mark ∈ marks := by
  have hscan : continuesWith marks t = true ↔
      ∃ mark rest, t.dropWhile isSpace = mark :: rest ∧ mark ∈ marks := by
    rw [continuesWith]
    split
    · next hnil => simp only [hnil, reduceCtorEq, false_and, exists_false]
    · next c rest hcons => simp [hcons]
  rw [hscan]
  constructor
  · rintro ⟨mark, rest, hdrop, hmark⟩
    obtain ⟨spaces, rfl, hspaces, -⟩ := dropWhile_eq_cons_iff.mp hdrop
    exact ⟨spaces, mark, rest, rfl, (isSpaces_iff spaces).mpr hspaces, hmark⟩
  · rintro ⟨spaces, mark, rest, rfl, hspaces, hmark⟩
    refine ⟨mark, rest, dropWhile_eq_cons_iff.mpr ?_, hmark⟩
    have hstop : isSpace mark = false := by simpa using List.any_eq_false.mp hmarks mark hmark
    exact ⟨spaces, rfl, (isSpaces_iff spaces).mp hspaces, hstop⟩

/-! ## Elements on one line -/

/-- The line has a part of the form `<` c v `>` w `</` x `>`, where the tag at its front is no
closing tag, both tags end with the first `>` in them, and no newline stands between them. -/
def HasElement (t : Text) : Prop :=
  ∃ (u : Text) (c : Char) (v w x z : Text),
    t = u ++ ['<', c] ++ v ++ ['>'] ++ w ++ ['<', '/'] ++ x ++ ['>'] ++ z ∧
      c ≠ '/' ∧ c ≠ '>' ∧ '>' ∉ v ∧ '\n' ∉ w ∧ x ≠ [] ∧ '>' ∉ x

theorem not_mem_iff_forall_ne (c : Char) (t : Text) :
    c ∉ t ↔ ∀ d ∈ t, decide (d ≠ c) = true := by
  simp only [decide_eq_true_eq]
  exact ⟨fun hc d hd heq => hc (heq ▸ hd), fun hall hc => hall c hc rfl⟩

/-- A search that tries each place in turn, and goes on past the characters of one class, finds a
place behind a part in that class. -/
theorem search_iff
    (scan here : Text → Bool) (passes : Char → Bool) (hnil : scan [] = false)
    (hhere : here [] = false)
    (hcons : ∀ c t, scan (c :: t) = (here (c :: t) || (passes c && scan t))) (t : Text) :
    scan t = true ↔
      ∃ u rest, t = u ++ rest ∧ (∀ c ∈ u, passes c = true) ∧ here rest = true := by
  induction t with
  | nil =>
      refine iff_of_false (by simp [hnil]) ?_
      rintro ⟨u, rest, heq, -, hfound⟩
      rw [(List.append_eq_nil_iff.mp heq.symm).2, hhere] at hfound
      cases hfound
  | cons c t ih =>
      rw [hcons, Bool.or_eq_true, Bool.and_eq_true, ih]
      constructor
      · rintro (hfound | ⟨hc, u, rest, rfl, hu, hfound⟩)
        · exact ⟨[], c :: t, rfl, by simp, hfound⟩
        · exact ⟨c :: u, rest, rfl, List.forall_mem_cons.mpr ⟨hc, hu⟩, hfound⟩
      · rintro ⟨u, rest, heq, hu, hfound⟩
        cases u with
        | nil =>
            left
            rwa [heq]
        | cons d u =>
            obtain ⟨rfl, rfl⟩ := List.cons.inj heq
            obtain ⟨hc, hu⟩ := List.forall_mem_cons.mp hu
            exact Or.inr ⟨hc, u, rest, rfl, hu, hfound⟩

theorem closesHere_iff (t : Text) :
    closesHere t = true ↔
      ∃ x z, t = ['<', '/'] ++ x ++ ['>'] ++ z ∧ x ≠ [] ∧ '>' ∉ x := by
  unfold closesHere
  split
  · next c rest =>
    rw [Bool.and_eq_true, decide_eq_true_eq, List.contains_iff_mem]
    constructor
    · rintro ⟨hc, hclose⟩
      obtain ⟨name, z, rfl, hname⟩ := List.eq_append_cons_of_mem hclose
      exact ⟨c :: name, z, by simp, by simp, by simp [hname, Ne.symm hc]⟩
    · rintro ⟨x, z, heq, hx, hclose⟩
      obtain ⟨d, name, rfl⟩ := List.exists_cons_of_ne_nil hx
      simp only [List.cons_append, List.nil_append, List.append_assoc, List.cons.injEq,
        true_and] at heq
      obtain ⟨rfl, rfl⟩ := heq
      exact ⟨fun hc => hclose (by simp [hc]), by simp⟩
  · next hform =>
    refine iff_of_false Bool.false_ne_true ?_
    rintro ⟨x, z, rfl, hx, -⟩
    obtain ⟨d, name, rfl⟩ := List.exists_cons_of_ne_nil hx
    exact hform d (name ++ '>' :: z) (by simp)

theorem closesAhead_iff (t : Text) :
    closesAhead t = true ↔ ∃ w rest, t = w ++ rest ∧ '\n' ∉ w ∧ closesHere rest = true := by
  simp only [not_mem_iff_forall_ne]
  exact search_iff closesAhead closesHere (· ≠ '\n') rfl rfl (fun _ _ => rfl) t

theorem elementHere_iff (t : Text) :
    elementHere t = true ↔
      ∃ c v after, t = ['<', c] ++ v ++ ['>'] ++ after ∧ c ≠ '/' ∧ c ≠ '>' ∧ '>' ∉ v ∧
        closesAhead after = true := by
  unfold elementHere
  split
  · next c rest =>
    simp only [Bool.and_eq_true, decide_eq_true_eq]
    constructor
    · rintro ⟨⟨hslash, hclose⟩, hscan⟩
      split at hscan
      · cases hscan
      · next d after hdrop =>
        obtain ⟨v, rfl, hv, hd⟩ := dropWhile_eq_cons_iff.mp hdrop
        obtain rfl : d = '>' := by simpa using hd
        exact ⟨c, v, after, by simp, hslash, hclose, (not_mem_iff_forall_ne '>' v).mpr hv, hscan⟩
    · rintro ⟨d, v, after, heq, hslash, hclose, hv, hcloses⟩
      simp only [List.cons_append, List.nil_append, List.append_assoc, List.cons.injEq,
        true_and] at heq
      obtain ⟨rfl, rfl⟩ := heq
      have hdrop : (v ++ '>' :: after).dropWhile (· ≠ '>') = '>' :: after :=
        dropWhile_eq_cons_iff.mpr ⟨v, rfl, (not_mem_iff_forall_ne '>' v).mp hv, by simp⟩
      refine ⟨⟨hslash, hclose⟩, ?_⟩
      rw [hdrop]
      exact hcloses
  · next hform =>
    refine iff_of_false Bool.false_ne_true ?_
    rintro ⟨c, v, after, rfl, -⟩
    exact hform c (v ++ '>' :: after) (by simp)

theorem hasInlineElement_iff_exists_suffix (t : Text) :
    hasInlineElement t = true ↔ ∃ u rest, t = u ++ rest ∧ elementHere rest = true := by
  have hsearch :=
    search_iff hasInlineElement elementHere (fun _ => true) rfl rfl (fun _ _ => rfl) t
  simpa using hsearch

theorem hasInlineElement_iff (t : Text) :
    hasInlineElement t = true ↔ HasElement t := by
  rw [hasInlineElement_iff_exists_suffix]
  constructor
  · rintro ⟨u, rest, rfl, helement⟩
    obtain ⟨c, v, after, rfl, hslash, hclose, hv, hahead⟩ := (elementHere_iff rest).mp helement
    obtain ⟨w, closing, rfl, hw, hcloses⟩ := (closesAhead_iff after).mp hahead
    obtain ⟨x, z, rfl, hx, hname⟩ := (closesHere_iff closing).mp hcloses
    exact ⟨u, c, v, w, x, z, by simp only [List.append_assoc], hslash, hclose, hv, hw, hx, hname⟩
  · rintro ⟨u, c, v, w, x, z, rfl, hslash, hclose, hv, hw, hx, hname⟩
    have hcloses := (closesHere_iff _).mpr ⟨x, z, rfl, hx, hname⟩
    have hahead := (closesAhead_iff _).mpr ⟨w, _, rfl, hw, hcloses⟩
    have helement := (elementHere_iff _).mpr ⟨c, v, _, rfl, hslash, hclose, hv, hahead⟩
    exact ⟨u, _, by simp only [List.append_assoc], helement⟩

/-! ## Statements -/

/-- The line starts as a statement does: with one of the words, with `return` and a parenthesis,
with a closing brace and then `)` or `;`, or with an identifier and then `=`, `(` or a brace. -/
inductive StartsStatement (t : Text) : Prop
  | word {word : String}
      (hword : word ∈ ["import ", "export ", "const ", "let ", "var ", "function ", "class "])
      (rest : Text) (heq : t = word.toList ++ rest)
  | returns {spaces : Text} (hspaces : IsSpaces spaces)
      (rest : Text) (heq : t = "return".toList ++ spaces ++ '(' :: rest)
  | blockEnd {spaces : Text} (hspaces : IsSpaces spaces) {mark : Char} (hmark : mark ∈ [')', ';'])
      (rest : Text) (heq : t = '}' :: spaces ++ mark :: rest)
  | use {first : Char} (hfirst : IsLetter first ∨ first = '_' ∨ first = '$')
      {name : Text} (hname : ∀ c ∈ name, IsLetter c ∨ IsDigit c ∨ c = '_' ∨ c = '$')
      {spaces : Text} (hspaces : IsSpaces spaces) {mark : Char} (hmark : mark ∈ ['=', '(', '{'])
      (rest : Text) (heq : t = first :: name ++ spaces ++ mark :: rest)

theorem any_statementWords_iff (t : Text) :
    statementWords.any (·.isPrefixOf t) = true ↔
      ∃ word ∈ ["import ", "export ", "const ", "let ", "var ", "function ", "class "],
        ∃ rest, t = word.toList ++ rest := by
  rw [statementWords, List.any_map, List.any_eq_true]
  simp only [Function.comp_apply, List.isPrefixOf_iff_prefix, List.IsPrefix, eq_comm (a := t)]

theorem startsReturn_iff (t : Text) :
    startsReturn t = true ↔
      ∃ spaces rest, t = "return".toList ++ spaces ++ '(' :: rest ∧ IsSpaces spaces := by
  rw [startsReturn, Bool.and_eq_true, List.isPrefixOf_iff_prefix, continuesWith_iff (by decide)]
  constructor
  · rintro ⟨⟨after, rfl⟩, spaces, mark, rest, hdrop, hspaces, hmark⟩
    obtain rfl : mark = '(' := List.mem_singleton.mp hmark
    refine ⟨spaces, rest, ?_, hspaces⟩
    rw [List.append_assoc, ← hdrop]
    rfl
  · rintro ⟨spaces, rest, rfl, hspaces⟩
    rw [List.append_assoc]
    exact ⟨⟨_, rfl⟩, spaces, '(', rest, rfl, hspaces, List.mem_singleton_self _⟩

theorem startsBlockEnd_iff (t : Text) :
    startsBlockEnd t = true ↔
      ∃ spaces mark rest, t = '}' :: spaces ++ mark :: rest ∧ IsSpaces spaces ∧
        mark ∈ [')', ';'] := by
  unfold startsBlockEnd
  split
  · next rest =>
    rw [continuesWith_iff (by decide)]
    simp only [List.cons_append, List.cons.injEq, true_and]
  · next hform =>
    refine iff_of_false Bool.false_ne_true ?_
    rintro ⟨spaces, mark, rest, rfl, -⟩
    exact hform (spaces ++ mark :: rest) rfl

theorem startsUse_iff (t : Text) :
    startsUse t = true ↔
      ∃ first name spaces mark rest, t = first :: name ++ spaces ++ mark :: rest ∧
        isIdentifierStart first = true ∧ (∀ c ∈ name, isIdentifierChar c = true) ∧
        IsSpaces spaces ∧ mark ∈ ['=', '(', '{'] := by
  cases t with
  | nil =>
      refine iff_of_false Bool.false_ne_true ?_
      rintro ⟨first, name, spaces, mark, rest, heq, -⟩
      simp at heq
  | cons c t =>
      rw [startsUse, Bool.and_eq_true, continuesWith_iff (by decide)]
      constructor
      · rintro ⟨hc, spaces, mark, rest, hdrop, hspaces, hmark⟩
        refine ⟨c, t.takeWhile isIdentifierChar, spaces, mark, rest, ?_, hc,
          fun d hd => List.mem_takeWhile_imp hd, hspaces, hmark⟩
        rw [List.append_assoc, ← hdrop, List.cons_append, List.takeWhile_append_dropWhile]
      · rintro ⟨first, name, spaces, mark, rest, heq, hfirst, hname, hspaces, hmark⟩
        rw [List.append_assoc, List.cons_append] at heq
        obtain ⟨rfl, rfl⟩ := List.cons.inj heq
        refine ⟨hfirst, spaces, mark, rest, ?_, hspaces, hmark⟩
        rw [List.dropWhile_append_of_pos hname]
        -- The identifier ends at a space, or at the mark if there is none.
        cases spaces with
        | nil =>
            have hmarks : ['=', '(', '{'].any isIdentifierChar = false := by decide
            exact List.dropWhile_cons_of_neg (List.any_eq_false.mp hmarks mark hmark)
        | cons d spaces =>
            have hd := (isSpaces_iff _).mp hspaces d List.mem_cons_self
            exact List.dropWhile_cons_of_neg (by simp [isIdentifierChar_of_isSpace hd])

theorem isStatement_iff (t : Text) :
    isStatement t = true ↔ StartsStatement t := by
  rw [isStatement, Bool.or_eq_true, Bool.or_eq_true, Bool.or_eq_true, any_statementWords_iff,
    startsReturn_iff, startsBlockEnd_iff, startsUse_iff]
  simp only [isIdentifierStart_iff, isIdentifierChar_iff]
  constructor
  · rintro (((⟨word, hword, rest, heq⟩ | ⟨spaces, rest, heq, hspaces⟩) |
      ⟨spaces, mark, rest, heq, hspaces, hmark⟩) |
      ⟨first, name, spaces, mark, rest, heq, hfirst, hname, hspaces, hmark⟩)
    · exact .word hword rest heq
    · exact .returns hspaces rest heq
    · exact .blockEnd hspaces hmark rest heq
    · exact .use hfirst hname hspaces hmark rest heq
  · rintro (⟨hword, rest, heq⟩ | ⟨hspaces, rest, heq⟩ | ⟨hspaces, hmark, rest, heq⟩ |
      ⟨hfirst, hname, hspaces, hmark, rest, heq⟩)
    · exact Or.inl (Or.inl (Or.inl ⟨_, hword, rest, heq⟩))
    · exact Or.inl (Or.inl (Or.inr ⟨_, rest, heq, hspaces⟩))
    · exact Or.inl (Or.inr ⟨_, _, rest, heq, hspaces, hmark⟩)
    · exact Or.inr ⟨_, _, _, _, rest, heq, hfirst, hname, hspaces, hmark⟩

/-! ## Changes of the level -/

/-- The line ends with a closing bracket and a comma. -/
def EndsWithComma (t : Text) : Prop :=
  ∃ c ∈ ['}', ']', ')'], [c, ','] <:+ t

/-- The line without the newline that it may end with. -/
def withoutFinalNewline (t : Text) : Text :=
  if t.getLast? = some '\n' then t.dropLast else t

/-- The line ends, but for one newline, with a word character, an opening parenthesis and an opening
brace, with any spaces between them. -/
def EndsWithCallObject (t : Text) : Prop :=
  ∃ (front : Text) (c : Char) (spaces more : Text),
    withoutFinalNewline t = front ++ [c] ++ spaces ++ ['('] ++ more ++ ['{'] ∧
      (IsLetter c ∨ IsDigit c ∨ c = '_') ∧ IsSpaces spaces ∧ IsSpaces more

/-- The opening brackets of the line less its closing ones. -/
def bracketExcess (t : Text) : Int :=
  ((t.count '{' + t.count '[' + t.count '(' : ℕ) : Int) -
    ((t.count '}' + t.count ']' + t.count ')' : ℕ) : Int)

theorem isContinuation_iff (t : Text) :
    isContinuation t = true ↔ EndsWithComma t := by
  simp [isContinuation, EndsWithComma, List.isSuffixOf_iff_suffix]

instance decidableEndsWithComma : DecidablePred EndsWithComma := fun t =>
  decidable_of_iff _ (isContinuation_iff t)

theorem countP_contains_cons
    {c : Char} {brackets : List Char} (hc : c ∉ brackets) (t : Text) :
    t.countP (c :: brackets).contains = t.count c + t.countP brackets.contains := by
  induction t with
  | nil => rfl
  | cons d t ih =>
      rw [List.countP_cons, List.countP_cons, List.count_cons, ih]
      by_cases hd : d = c
      · subst hd
        simp [hc, Nat.add_right_comm]
      · simp [hd, Nat.add_assoc]

theorem bracketBalance_eq (t : Text) :
    bracketBalance t = bracketExcess t := by
  rw [bracketBalance, bracketExcess, openers, closers]
  repeat rw [countP_contains_cons (by decide)]
  have hnone : t.countP [].contains = 0 := List.countP_eq_zero.mpr (by simp)
  simp only [hnone, Nat.add_zero, Nat.add_assoc]

theorem reverse_withoutFinalNewline_eq_iff {t rest : Text} :
    (withoutFinalNewline t).reverse = '{' :: rest ↔
      t.reverse = '{' :: rest ∨ t.reverse = '\n' :: '{' :: rest := by
  rw [withoutFinalNewline]
  rcases List.eq_nil_or_concat t with rfl | ⟨init, last, rfl⟩
  · simp
  · by_cases hlast : last = '\n' <;> simp [hlast]

/-- The scan for a call runs backwards, from the brace to the word before the parenthesis. -/
theorem opensCallObject_iff_reverse (t : Text) :
    opensCallObject t = true ↔
      ∃ beforeBrace beforeCall c front,
        (withoutFinalNewline t).reverse = '{' :: beforeBrace ∧
          beforeBrace.dropWhile isSpace = '(' :: beforeCall ∧
          beforeCall.dropWhile isSpace = c :: front ∧ isWordChar c = true := by
  constructor
  · intro h
    unfold opensCallObject at h
    dsimp only at h
    split at h
    · next beforeBrace hbrace =>
      split at h
      · next beforeCall hcall =>
        split at h
        · next c front hword =>
          refine ⟨beforeBrace, beforeCall, c, front, ?_, hcall, hword, h⟩
          rw [reverse_withoutFinalNewline_eq_iff]
          split at hbrace
          · next rest hnewline =>
            right
            rw [hnewline, hbrace]
          · exact Or.inl hbrace
        · cases h
      · cases h
    · cases h
  · rintro ⟨beforeBrace, beforeCall, c, front, hbrace, hcall, hword, hc⟩
    rcases reverse_withoutFinalNewline_eq_iff.mp hbrace with hrev | hrev <;>
      simp [opensCallObject, hrev, hcall, hword, hc]

theorem opensCallObject_iff (t : Text) :
    opensCallObject t = true ↔ EndsWithCallObject t := by
  rw [opensCallObject_iff_reverse]
  constructor
  · rintro ⟨beforeBrace, beforeCall, c, front, hbrace, hcall, hword, hc⟩
    obtain ⟨more, rfl, hmore, -⟩ := dropWhile_eq_cons_iff.mp hcall
    obtain ⟨spaces, rfl, hspaces, -⟩ := dropWhile_eq_cons_iff.mp hword
    refine ⟨front.reverse, c, spaces.reverse, more.reverse, ?_, (isWordChar_iff c).mp hc,
      isSpaces_reverse ((isSpaces_iff _).mpr hspaces),
      isSpaces_reverse ((isSpaces_iff _).mpr hmore)⟩
    rw [← List.reverse_reverse (withoutFinalNewline t), hbrace]
    simp
  · rintro ⟨front, c, spaces, more, heq, hc, hspaces, hmore⟩
    have hword : isWordChar c = true := (isWordChar_iff c).mpr hc
    refine ⟨more.reverse ++ '(' :: (spaces.reverse ++ c :: front.reverse),
      spaces.reverse ++ c :: front.reverse, c, front.reverse, ?_, ?_, ?_, hword⟩
    · rw [heq]
      simp
    · exact dropWhile_eq_cons_iff.mpr
        ⟨_, rfl, (isSpaces_iff _).mp (isSpaces_reverse hmore), by decide⟩
    · refine dropWhile_eq_cons_iff.mpr
        ⟨_, rfl, (isSpaces_iff _).mp (isSpaces_reverse hspaces), ?_⟩
      -- A space is no word character, since it belongs to no identifier.
      by_contra hspace
      have hnone := isIdentifierChar_of_isSpace (by simpa using hspace)
      rw [isIdentifierChar, hword] at hnone
      cases hnone

instance decidableEndsWithCallObject : DecidablePred EndsWithCallObject := fun t =>
  decidable_of_iff _ (opensCallObject_iff t)

/-- Each recogniser accepts exactly its language: the lines that hold an element and its closing
tag, and the lines that start as a statement does.  For the change of the level a closing bracket
and a comma at the end come before a call of an object there, and both before the brackets. -/
theorem recognisers_accept_languages (t : Text) :
    (hasInlineElement t = true ↔ HasElement t) ∧ (isStatement t = true ↔ StartsStatement t) ∧
      levelChange t =
        if EndsWithComma t then 0
        else if EndsWithCallObject t then 1
        else bracketExcess t := by
  refine ⟨hasInlineElement_iff t, isStatement_iff t, ?_⟩
  rw [levelChange, bracketBalance_eq]
  by_cases hcomma : EndsWithComma t
  · rw [if_pos hcomma, if_pos ((isContinuation_iff t).mpr hcomma)]
  · rw [if_neg hcomma, if_neg fun h => hcomma ((isContinuation_iff t).mp h)]
    by_cases hcall : EndsWithCallObject t
    · rw [if_pos hcall, if_pos ((opensCallObject_iff t).mpr hcall)]
    · rw [if_neg hcall, if_neg fun h => hcall ((opensCallObject_iff t).mp h)]

end Line
end Reindent
