import Mathlib.Data.List.Infix
import Mathlib.Data.List.TakeWhile
import Reindent.Markup.OpenTag

/-!
# Scanning a text for tags

The tags of a text are found from left to right.  Where a tag starts, it is taken whole; any other
character is passed over.  `Scans` is this rule as a relation, with the spelling of a tag given by
`IsTag`, and `tags` is its one solution.

A tag ends with the first `>` behind its name.  So a text cut at an offset loses the tags that end
behind the offset, and what is left of a tag that was cut has no `>`: no other tag shows up in it.
The tags before a cursor are therefore those of the whole text that end by the cursor.
-/

namespace Reindent
namespace Markup

/-! ## The spelling of a tag -/

/-- The name of a tag: one name character or more. -/
structure IsName (name : Text) : Prop where
  ne_nil : name ≠ []
  isNameChar_of_mem : ∀ c ∈ name, isNameChar c = true

/-- What may stand between the name of a tag and its `>`: anything else than `>` that does not go on
with the name. -/
structure IsInner (inner : Text) : Prop where
  close_not_mem : '>' ∉ inner
  isNameChar_head : ∀ c ∈ inner.head?, isNameChar c = false

/-- The spelling of a tag of a given kind and name. -/
inductive IsTag : TagKind → Text → Text → Prop where
  | opening {name inner : Text} :
      IsName name → IsInner inner → ¬ ['/'] <:+ inner →
        IsTag .opening name ('<' :: (name ++ inner ++ ['>']))
  | selfClosing {name inner : Text} :
      IsName name → IsInner inner → ['/'] <:+ inner →
        IsTag .selfClosing name ('<' :: (name ++ inner ++ ['>']))
  | closing {name inner : Text} :
      IsName name → IsInner inner →
        IsTag .closing name ('<' :: '/' :: (name ++ inner ++ ['>']))

/-- A tag stands at the front of the text. -/
def StartsTag (text : Text) : Prop :=
  ∃ kind name lexeme rest, IsTag kind name lexeme ∧ text = lexeme ++ rest

theorem IsName.close_not_mem {name : Text} (hname : IsName name) : '>' ∉ name := by
  intro hmem
  exact absurd (hname.isNameChar_of_mem _ hmem) (by decide)

/-- A name begins with a name character, so not with a `/`. -/
theorem IsName.exists_cons {name : Text} (hname : IsName name) :
    ∃ c rest, name = c :: rest ∧ isNameChar c = true ∧ c ≠ '/' := by
  obtain ⟨c, rest, rfl⟩ := List.exists_cons_of_ne_nil hname.ne_nil
  have hc := hname.isNameChar_of_mem c List.mem_cons_self
  refine ⟨c, rest, rfl, hc, ?_⟩
  rintro rfl
  exact absurd hc (by decide)

theorem IsTag.isName {kind : TagKind} {name lexeme : Text} (htag : IsTag kind name lexeme) :
    IsName name := by
  cases htag with
  | opening hname => exact hname
  | selfClosing hname => exact hname
  | closing hname => exact hname

/-- The only `>` of a tag is its last character. -/
theorem IsTag.exists_concat {kind : TagKind} {name lexeme : Text} (htag : IsTag kind name lexeme) :
    ∃ front, lexeme = front ++ ['>'] ∧ '>' ∉ front := by
  cases htag with
  | @opening _ inner hname hinner =>
      exact ⟨'<' :: (name ++ inner), rfl, by simp [hname.close_not_mem, hinner.close_not_mem]⟩
  | @selfClosing _ inner hname hinner =>
      exact ⟨'<' :: (name ++ inner), rfl, by simp [hname.close_not_mem, hinner.close_not_mem]⟩
  | @closing _ inner hname hinner =>
      exact ⟨'<' :: '/' :: (name ++ inner), rfl,
        by simp [hname.close_not_mem, hinner.close_not_mem]⟩

theorem IsTag.length_pos {kind : TagKind} {name lexeme : Text} (htag : IsTag kind name lexeme) :
    0 < lexeme.length := by
  obtain ⟨front, rfl, -⟩ := htag.exists_concat
  simp

/-- A tag that is cut off has no `>`. -/
theorem IsTag.close_not_mem_take
    {kind : TagKind} {name lexeme : Text} (htag : IsTag kind name lexeme)
    {count : ℕ} (hcount : count < lexeme.length) :
    '>' ∉ lexeme.take count := by
  obtain ⟨front, rfl, hfront⟩ := htag.exists_concat
  rw [List.length_append, List.length_singleton] at hcount
  rw [List.take_append_of_le_length (by omega)]
  exact fun hmem => hfront (List.mem_of_mem_take hmem)

theorem StartsTag.close_mem {text : Text} (hstarts : StartsTag text) : '>' ∈ text := by
  obtain ⟨kind, name, lexeme, rest, htag, rfl⟩ := hstarts
  obtain ⟨front, rfl, -⟩ := htag.exists_concat
  simp

theorem StartsTag.append {text : Text} (hstarts : StartsTag text) (more : Text) :
    StartsTag (text ++ more) := by
  obtain ⟨kind, name, lexeme, rest, htag, rfl⟩ := hstarts
  exact ⟨kind, name, lexeme, rest ++ more, htag, List.append_assoc _ _ _⟩

/-! ## Reading one tag -/

theorem takeWhile_dropWhile_append
    {p : Char → Bool} {front : Text} (hfront : ∀ c ∈ front, p c = true)
    {rest : Text} (hrest : ∀ c ∈ rest.head?, p c = false) :
    (front ++ rest).takeWhile p = front ∧ (front ++ rest).dropWhile p = rest := by
  rw [List.takeWhile_append_of_pos hfront, List.dropWhile_append_of_pos hfront]
  cases rest with
  | nil => simp
  | cons c rest => simp [hrest c rfl]

/-- A text cut at its first `>`. -/
theorem takeWhile_dropWhile_close
    {front : Text} (hfront : '>' ∉ front) (rest : Text) :
    (front ++ '>' :: rest).takeWhile (· ≠ '>') = front ∧
      (front ++ '>' :: rest).dropWhile (· ≠ '>') = '>' :: rest := by
  have hplain : ∀ c ∈ front, decide (c ≠ '>') = true := by
    intro c hc
    rw [decide_eq_true_iff]
    rintro rfl
    exact hfront hc
  exact takeWhile_dropWhile_append hplain (by simp)

/-- The name is read up to what stands between it and the `>`. -/
theorem IsInner.takeWhile_dropWhile_name
    {inner : Text} (hinner : IsInner inner) {name : Text}
    (hname : ∀ c ∈ name, isNameChar c = true) (rest : Text) :
    (name ++ (inner ++ '>' :: rest)).takeWhile isNameChar = name ∧
      (name ++ (inner ++ '>' :: rest)).dropWhile isNameChar = inner ++ '>' :: rest := by
  refine takeWhile_dropWhile_append hname ?_
  cases inner with
  | nil => simp; decide
  | cons c inner => simpa using hinner.isNameChar_head c rfl

theorem tagBody?_of_isInner
    {name inner : Text} (hname : IsName name) (hinner : IsInner inner) (rest : Text) :
    tagBody? (name ++ inner ++ '>' :: rest) = some (name, inner) := by
  obtain ⟨hread, hleft⟩ := hinner.takeWhile_dropWhile_name hname.isNameChar_of_mem rest
  rw [tagBody?, List.append_assoc, hread, hleft,
    (takeWhile_dropWhile_close hinner.close_not_mem rest).1]
  simp [hname.ne_nil]

/-- What is left behind a name that was read to its end, up to the `>`. -/
theorem isInner_of_dropWhile
    {text inner rest : Text} (hinner : '>' ∉ inner)
    (hleft : text.dropWhile isNameChar = inner ++ '>' :: rest) :
    IsInner inner where
  close_not_mem := hinner
  isNameChar_head := by
    intro c hc
    have hstop := List.head?_dropWhile_not isNameChar text
    rw [hleft] at hstop
    simpa [Option.mem_def.mp hc] using hstop

theorem exists_of_tagBody?
    {text name inner : Text} (hbody : tagBody? text = some (name, inner)) :
    IsName name ∧ IsInner inner ∧ ∃ rest, text = name ++ inner ++ '>' :: rest := by
  simp only [tagBody?] at hbody
  split at hbody
  · cases hbody
  · next hread =>
    rw [Bool.or_eq_true, not_or, decide_eq_true_iff, Bool.not_eq_true', Bool.not_eq_false,
      List.contains_iff_mem] at hread
    obtain ⟨hne, hmem⟩ := hread
    obtain ⟨front, rest, hafter, hfront⟩ := List.eq_append_cons_of_mem hmem
    rw [hafter, (takeWhile_dropWhile_close hfront rest).1, Option.some.injEq,
      Prod.mk.injEq] at hbody
    obtain ⟨rfl, rfl⟩ := hbody
    refine ⟨⟨hne, fun c hc => List.mem_takeWhile_imp hc⟩, isInner_of_dropWhile hfront hafter,
      rest, ?_⟩
    rw [List.append_assoc, ← hafter, List.takeWhile_append_dropWhile]

theorem tagHere?_of_tagBody?
    {text name inner : Text} (hslash : text.head? ≠ some '/')
    (hbody : tagBody? text = some (name, inner)) :
    tagHere? ('<' :: text) =
      some (if ['/'].isSuffixOf inner then .selfClosing else .opening, name,
        name.length + inner.length + 2) := by
  cases text with
  | nil => simp [tagBody?] at hbody
  | cons c rest =>
      have hc : c ≠ '/' := fun h => hslash (by rw [h, List.head?_cons])
      simp [tagHere?, hc, hbody]

/-- A tag at the front of a text is read. -/
theorem tagHere?_of_isTag
    {kind : TagKind} {name lexeme : Text} (htag : IsTag kind name lexeme) (rest : Text) :
    tagHere? (lexeme ++ rest) = some (kind, name, lexeme.length) := by
  have hcut : ∀ inner, name ++ inner ++ ['>'] ++ rest = name ++ inner ++ '>' :: rest := by simp
  have hhead : ∀ inner, (name ++ inner ++ '>' :: rest).head? ≠ some '/' := by
    obtain ⟨c, more, hname, -, hc⟩ := htag.isName.exists_cons
    simp [hname, hc]
  cases htag with
  | @opening _ inner hname hinner hslash =>
      have hbody := tagBody?_of_isInner hname hinner rest
      rw [List.cons_append, hcut, tagHere?_of_tagBody? (hhead inner) hbody,
        if_neg (by simpa using hslash)]
      simp only [List.length_cons, List.length_append, List.length_nil, Nat.zero_add]
  | @selfClosing _ inner hname hinner hslash =>
      have hbody := tagBody?_of_isInner hname hinner rest
      rw [List.cons_append, hcut, tagHere?_of_tagBody? (hhead inner) hbody,
        if_pos (by simpa using hslash)]
      simp only [List.length_cons, List.length_append, List.length_nil, Nat.zero_add]
  | @closing _ inner hname hinner =>
      have hbody := tagBody?_of_isInner hname hinner rest
      rw [List.cons_append, List.cons_append, hcut]
      simp only [tagHere?, hbody, Option.map_some, List.length_cons, List.length_append,
        List.length_nil, Nat.zero_add]

/-- What is read is a tag at the front of the text. -/
theorem exists_isTag_of_tagHere?
    {text : Text} {kind : TagKind} {name : Text} {size : ℕ}
    (hhere : tagHere? text = some (kind, name, size)) :
    ∃ lexeme rest, IsTag kind name lexeme ∧ text = lexeme ++ rest ∧ size = lexeme.length := by
  unfold tagHere? at hhere
  split at hhere
  · next after =>
    obtain ⟨⟨readName, inner⟩, hbody, hread⟩ := Option.map_eq_some_iff.mp hhere
    simp only [Prod.mk.injEq] at hread
    obtain ⟨rfl, rfl, rfl⟩ := hread
    obtain ⟨hname, hinner, rest, rfl⟩ := exists_of_tagBody? hbody
    refine ⟨_, rest, .closing hname hinner, by simp, ?_⟩
    simp only [List.length_cons, List.length_append, List.length_nil, Nat.zero_add]
  · next after _ =>
    obtain ⟨⟨readName, inner⟩, hbody, hread⟩ := Option.map_eq_some_iff.mp hhere
    simp only [Prod.mk.injEq] at hread
    obtain ⟨rfl, rfl, rfl⟩ := hread
    obtain ⟨hname, hinner, rest, rfl⟩ := exists_of_tagBody? hbody
    refine ⟨'<' :: (readName ++ inner ++ ['>']), rest, ?_, by simp, ?_⟩
    · split
      · next hslash => exact .selfClosing hname hinner (by simpa using hslash)
      · next hslash => exact .opening hname hinner (by simpa using hslash)
    · simp only [List.length_cons, List.length_append, List.length_nil, Nat.zero_add]
  · cases hhere

theorem tagHere?_eq_none_iff (text : Text) :
    tagHere? text = none ↔ ¬ StartsTag text := by
  constructor
  · rintro hnone ⟨kind, name, lexeme, rest, htag, rfl⟩
    rw [tagHere?_of_isTag htag] at hnone
    cases hnone
  · intro hstarts
    rw [Option.eq_none_iff_forall_ne_some]
    rintro ⟨kind, name, size⟩ hhere
    obtain ⟨lexeme, rest, htag, rfl, -⟩ := exists_isTag_of_tagHere? hhere
    exact hstarts ⟨kind, name, lexeme, rest, htag, rfl⟩

/-! ## The scan -/

/-- The tags found from left to right in a text that stands at an offset. -/
inductive Scans : ℕ → Text → List Tag → Prop where
  | nil {offset : ℕ} : Scans offset [] []
  | pass {offset : ℕ} {c : Char} {rest : Text} {found : List Tag} :
      ¬ StartsTag (c :: rest) → Scans (offset + 1) rest found → Scans offset (c :: rest) found
  | tag {offset : ℕ} {kind : TagKind} {name lexeme rest : Text} {found : List Tag} :
      IsTag kind name lexeme → Scans (offset + lexeme.length) rest found →
        Scans offset (lexeme ++ rest)
          ({ start := offset, stop := offset + lexeme.length, name, kind } :: found)

/-- Passing over characters is dropping them. -/
theorem tagsFrom_skip (offset skip : ℕ) (text : Text) :
    tagsFrom offset skip text = tagsFrom (offset + skip) 0 (text.drop skip) := by
  induction text generalizing offset skip with
  | nil => simp [tagsFrom]
  | cons c rest ih =>
      cases skip with
      | zero => rfl
      | succ skip =>
          rw [tagsFrom, ih, List.drop_succ_cons, Nat.add_right_comm, Nat.add_assoc]

theorem tagsFrom_of_isTag
    {kind : TagKind} {name lexeme : Text} (htag : IsTag kind name lexeme)
    (offset : ℕ) (rest : Text) :
    tagsFrom offset 0 (lexeme ++ rest) =
      { start := offset, stop := offset + lexeme.length, name, kind } ::
        tagsFrom (offset + lexeme.length) 0 rest := by
  have hhere := tagHere?_of_isTag htag rest
  obtain ⟨c, more, rfl⟩ := List.exists_cons_of_length_pos htag.length_pos
  rw [List.cons_append] at hhere ⊢
  have hskip : offset + 1 + more.length = offset + (c :: more).length := by
    rw [List.length_cons, Nat.add_assoc, Nat.add_comm 1]
  simp only [tagsFrom, hhere]
  rw [tagsFrom_skip, List.length_cons, Nat.add_sub_cancel, List.drop_left, hskip, List.length_cons]

theorem tagsFrom_of_not_startsTag
    {c : Char} {rest : Text} (hstarts : ¬ StartsTag (c :: rest)) (offset : ℕ) :
    tagsFrom offset 0 (c :: rest) = tagsFrom (offset + 1) 0 rest := by
  have hhere := (tagHere?_eq_none_iff _).mpr hstarts
  simp only [tagsFrom, hhere]

theorem scans_tagsFrom (offset : ℕ) (text : Text) :
    Scans offset text (tagsFrom offset 0 text) := by
  induction hlength : text.length using Nat.strong_induction_on generalizing offset text with
  | _ length ih =>
    cases text with
    | nil => exact .nil
    | cons c rest =>
      by_cases hstarts : StartsTag (c :: rest)
      · obtain ⟨kind, name, lexeme, after, htag, hcut⟩ := hstarts
        have hpos := htag.length_pos
        rw [hcut] at hlength ⊢
        rw [List.length_append] at hlength
        rw [tagsFrom_of_isTag htag]
        exact .tag htag (ih after.length (by omega) _ after rfl)
      · rw [tagsFrom_of_not_startsTag hstarts]
        exact .pass hstarts (ih rest.length (by simp [← hlength]) _ rest rfl)

theorem Scans.eq_tagsFrom
    {offset : ℕ} {text : Text} {found : List Tag} (hscan : Scans offset text found) :
    found = tagsFrom offset 0 text := by
  induction hscan with
  | nil => rfl
  | pass hstarts _ ih => rw [tagsFrom_of_not_startsTag hstarts, ih]
  | tag htag _ ih => rw [tagsFrom_of_isTag htag, ih]

/-- The tags of a text are what the scan finds, and nothing else is. -/
theorem scans_iff (text : Text) (found : List Tag) :
    Scans 0 text found ↔ found = tags text :=
  ⟨Scans.eq_tagsFrom, fun h => h ▸ scans_tagsFrom 0 text⟩

/-! ## Cutting the text -/

/-- A tag found is not empty, stands behind the offset and has a name. -/
theorem Scans.bounds
    {offset : ℕ} {text : Text} {found : List Tag} (hscan : Scans offset text found) :
    ∀ tag ∈ found, offset ≤ tag.start ∧ tag.start < tag.stop ∧ IsName tag.name := by
  induction hscan with
  | nil => simp
  | pass _ _ ih =>
      intro tag htag
      obtain ⟨hstart, hrest⟩ := ih tag htag
      exact ⟨by omega, hrest⟩
  | tag hlexeme _ ih =>
      have hpos := hlexeme.length_pos
      refine List.forall_mem_cons.mpr ⟨⟨Nat.le_refl _, ?_, hlexeme.isName⟩, ?_⟩
      · exact Nat.lt_add_of_pos_right hpos
      · intro tag htag
        obtain ⟨hstart, hrest⟩ := ih tag htag
        exact ⟨by omega, hrest⟩

/-- Behind an offset the scan finds no tag that ends before it. -/
theorem Scans.filter_eq_nil
    {offset : ℕ} {text : Text} {found : List Tag} (hscan : Scans offset text found)
    {limit : ℕ} (hlimit : limit ≤ offset) :
    found.filter (fun tag => decide (tag.stop ≤ limit)) = [] := by
  rw [List.filter_eq_nil_iff]
  intro tag htag
  obtain ⟨hstart, hstop, -⟩ := hscan.bounds tag htag
  rw [decide_eq_true_iff]
  omega

theorem scans_of_close_not_mem
    {text : Text} (hclose : '>' ∉ text) (offset : ℕ) :
    Scans offset text [] := by
  induction text generalizing offset with
  | nil => exact .nil
  | cons c rest ih =>
      refine .pass (fun hstarts => hclose hstarts.close_mem) (ih ?_ _)
      exact fun hmem => hclose (List.mem_cons_of_mem c hmem)

/-- The scan of a text that is cut finds the tags that end before the cut. -/
theorem Scans.take
    {offset : ℕ} {text : Text} {found : List Tag} (hscan : Scans offset text found) (count : ℕ) :
    Scans offset (text.take count)
      (found.filter fun tag => decide (tag.stop ≤ offset + count)) := by
  induction hscan generalizing count with
  | nil => simpa using Scans.nil
  | @pass offset c rest found hstarts hscan ih =>
      cases count with
      | zero =>
          rw [hscan.filter_eq_nil (by omega)]
          exact .nil
      | succ count =>
          have hcut := ih count
          rw [Nat.add_assoc, Nat.add_comm 1] at hcut
          refine .pass (fun hshort => hstarts ?_) hcut
          have hwhole := hshort.append (rest.drop count)
          rwa [List.cons_append, List.take_append_drop] at hwhole
  | @tag offset kind name lexeme rest found htag hscan ih =>
      rcases Nat.lt_or_ge count lexeme.length with hshort | hlong
      · -- The cut falls into this tag, and what is left of it has no `>`.
        have hdropped : ¬ offset + lexeme.length ≤ offset + count := by omega
        rw [List.filter_cons_of_neg (by simpa using hdropped), hscan.filter_eq_nil (by omega),
          List.take_append_of_le_length hshort.le]
        exact scans_of_close_not_mem (htag.close_not_mem_take hshort) offset
      · have hkept : offset + lexeme.length ≤ offset + count := by omega
        have hcut := ih (count - lexeme.length)
        rw [Nat.add_assoc, Nat.add_sub_cancel' hlong] at hcut
        rw [List.filter_cons_of_pos (by simpa using hkept), List.take_append,
          List.take_of_length_le hlong]
        exact .tag htag hcut

/-- The tags of a text that end by an offset. -/
def tagsBy (text : Text) (offset : Int) : List Tag :=
  (tags text).filter fun tag => decide ((tag.stop : Int) ≤ offset)

theorem tags_take (text : Text) (offset : Int) :
    tags (text.take offset.toNat) = tagsBy text offset := by
  have hscan := (scans_iff text (tags text)).mpr rfl
  have hcut := (scans_iff _ _).mp (hscan.take offset.toNat)
  rw [← hcut, tagsBy]
  apply List.filter_congr
  intro tag htag
  obtain ⟨-, hstop, -⟩ := hscan.bounds tag htag
  rw [decide_eq_decide]
  omega

theorem openTags_eq_unclosed_tagsBy (text : Text) (offset : Int) :
    openTags text offset = unclosed (tagsBy text offset) := by
  rw [openTags, tags_take]

/-- Between the ends of tags the tags that have ended stay the same. -/
theorem tagsBy_eq_of_no_stop
    {text : Text} {offset later : Int} (hle : offset ≤ later)
    (hstops : ∀ tag ∈ tags text, ¬ (offset < tag.stop ∧ (tag.stop : Int) ≤ later)) :
    tagsBy text later = tagsBy text offset := by
  apply List.filter_congr
  intro tag htag
  have hstop := hstops tag htag
  rw [decide_eq_decide]
  omega

/-- A change of the text behind an offset does not touch the tags that end by the offset. -/
theorem tagsBy_eq_of_take_eq
    {text other : Text} {offset : Int} (htake : other.take offset.toNat = text.take offset.toNat) :
    tagsBy other offset = tagsBy text offset := by
  rw [← tags_take, ← tags_take, htake]

/-- The tags of a text are those that the scan from left to right finds, and the tags before an
offset are those of the whole text that end by it.  So the open tags at an offset are read off
these; they are the same at two offsets with no end of a tag between them, and in two texts that
differ from the offset on only; and from the end of the text on they are those of the whole text. -/
theorem tags_before_offset (text : Text) (offset : Int) :
    (∀ found, Scans 0 text found ↔ found = tags text) ∧
      tags (text.take offset.toNat) = tagsBy text offset ∧
      openTags text offset = unclosed (tagsBy text offset) ∧
      (∀ later, offset ≤ later →
        (∀ tag ∈ tags text, ¬ (offset < tag.stop ∧ (tag.stop : Int) ≤ later)) →
          openTags text later = openTags text offset) ∧
      (∀ other : Text, other.take offset.toNat = text.take offset.toNat →
        tagsBy other offset = tagsBy text offset ∧
          openTags other offset = openTags text offset) ∧
      ((text.length : Int) ≤ offset → openTags text offset = unclosed (tags text)) := by
  refine ⟨scans_iff text, tags_take text offset, openTags_eq_unclosed_tagsBy text offset,
    ?_, ?_, ?_⟩
  · intro later hle hstops
    rw [openTags_eq_unclosed_tagsBy, openTags_eq_unclosed_tagsBy,
      tagsBy_eq_of_no_stop hle hstops]
  · intro other htake
    have hsame := tagsBy_eq_of_take_eq htake
    rw [openTags_eq_unclosed_tagsBy, openTags_eq_unclosed_tagsBy, hsame]
    exact ⟨rfl, rfl⟩
  · intro hlength
    rw [openTags, List.take_of_length_le (by omega)]

/-- A list whose second tag holds a `<` of its own. -/
def nestedMark : Text :=
  "<ul><li <b>x</li>".toList

/-- Cut inside its second tag, the list has one open tag, as it has behind the first one. -/
theorem tags_before_offset_nestedMark :
    (∀ tag ∈ tags nestedMark, ¬ ((4 : Int) < tag.stop ∧ (tag.stop : Int) ≤ 10)) ∧
      openTags nestedMark 10 = openTags nestedMark 4 ∧
      openTags "<ul></ul>".toList 4 = openTags nestedMark 4 ∧
      openTags nestedMark 20 = unclosed (tags nestedMark) ∧
      openTags nestedMark 4 = ["ul".toList] := by
  have hstops : ∀ tag ∈ tags nestedMark, ¬ ((4 : Int) < tag.stop ∧ (tag.stop : Int) ≤ 10) := by
    decide
  obtain ⟨-, -, -, hbetween, hchanged, -⟩ := tags_before_offset nestedMark 4
  obtain ⟨-, -, -, -, -, hend⟩ := tags_before_offset nestedMark 20
  exact ⟨hstops, hbetween 10 (by decide) hstops, (hchanged _ (by decide)).2, hend (by decide),
    by decide⟩

end Markup
end Reindent
