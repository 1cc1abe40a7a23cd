import Reindent.Proofs.Markup.Matching

/-!
# Text behind finished tags

A `<` starts a tag when an optional `/` and a name character follow it and a `>` comes later.  A
text with a `>` behind every `<` that goes on like a tag has no tag left unfinished.  Text that
begins with a `<` of its own may then be added without touching the tags before it: the tags of
the whole are those of the two parts.
-/

namespace Reindent
namespace Markup

/-- The text behind a `<` goes on like a tag: with a name character, after a `/` or at once. -/
def GoesOnAsTag (after : Text) : Prop :=
  ∃ c rest, isNameChar c = true ∧ (after = c :: rest ∨ after = '/' :: c :: rest)

/-- Behind every `<` that goes on like a tag there is a `>`. -/
def TagsFinished (text : Text) : Prop :=
  ∀ before after, text = before ++ '<' :: after → GoesOnAsTag after → '>' ∈ after

/-! ## Where tags start -/

/-- From a name character on, a text with a `>` holds a name and what stands before the `>`. -/
theorem exists_body
    {c : Char} {rest : Text} (hc : isNameChar c = true) (hclose : '>' ∈ c :: rest) :
    ∃ name inner more, IsName name ∧ IsInner inner ∧ c :: rest = name ++ inner ++ '>' :: more := by
  have hafter : '>' ∈ (c :: rest).dropWhile isNameChar := by
    have hsplit : (c :: rest).takeWhile isNameChar ++ (c :: rest).dropWhile isNameChar =
        c :: rest := List.takeWhile_append_dropWhile
    rw [← hsplit, List.mem_append] at hclose
    refine hclose.resolve_left fun hname => ?_
    exact absurd (List.mem_takeWhile_imp hname) (by decide)
  have hname : (c :: rest).takeWhile isNameChar ≠ [] := by simp [hc]
  have hread : (tagBody? (c :: rest)).isSome = true := by simp [tagBody?, hname, hafter]
  obtain ⟨⟨name, inner⟩, hbody⟩ := Option.isSome_iff_exists.mp hread
  obtain ⟨hname, hinner, more, hcut⟩ := exists_of_tagBody? hbody
  exact ⟨name, inner, more, hname, hinner, hcut⟩

theorem startsTag_cons_iff (c : Char) (after : Text) :
    StartsTag (c :: after) ↔ c = '<' ∧ GoesOnAsTag after ∧ '>' ∈ after := by
  constructor
  · rintro ⟨kind, name, lexeme, rest, htag, hcut⟩
    obtain ⟨d, more, rfl, hd, -⟩ := htag.isName.exists_cons
    cases htag with
    | opening =>
        cases hcut
        exact ⟨rfl, ⟨d, _, hd, .inl rfl⟩, by simp⟩
    | selfClosing =>
        cases hcut
        exact ⟨rfl, ⟨d, _, hd, .inl rfl⟩, by simp⟩
    | closing =>
        cases hcut
        exact ⟨rfl, ⟨d, _, hd, .inr rfl⟩, by simp⟩
  · rintro ⟨rfl, ⟨d, rest, hd, rfl | rfl⟩, hclose⟩
    · obtain ⟨name, inner, more, hname, hinner, hcut⟩ := exists_body hd hclose
      rw [hcut]
      by_cases hslash : ['/'] <:+ inner
      · exact ⟨_, _, _, more, .selfClosing hname hinner hslash, by simp⟩
      · exact ⟨_, _, _, more, .opening hname hinner hslash, by simp⟩
    · obtain ⟨name, inner, more, hname, hinner, hcut⟩ := exists_body hd (by simpa using hclose)
      rw [hcut]
      exact ⟨_, _, _, more, .closing hname hinner, by simp⟩

/-- A `<` is neither a name character nor a `/`, so what stands before it goes on like a tag by
itself. -/
theorem GoesOnAsTag.of_append
    {after more : Text} (hmore : more.head? = some '<') (hgoes : GoesOnAsTag (after ++ more)) :
    GoesOnAsTag after := by
  obtain ⟨rest, rfl⟩ := List.head?_eq_some_iff.mp hmore
  obtain ⟨c, tail, hc, hcut⟩ := hgoes
  have hne : c ≠ '<' := by
    rintro rfl
    exact absurd hc (by decide)
  cases after with
  | nil => simp [Ne.symm hne] at hcut
  | cons a after =>
      rcases hcut with hcut | hcut
      · cases hcut
        exact ⟨c, after, hc, .inl rfl⟩
      · cases after with
        | nil =>
            cases hcut
            exact absurd rfl hne
        | cons b after =>
            cases hcut
            exact ⟨c, after, hc, .inr rfl⟩

/-! ## Finished tags -/

theorem tagsFinished_cons_iff (c : Char) (rest : Text) :
    TagsFinished (c :: rest) ↔
      (c = '<' → GoesOnAsTag rest → '>' ∈ rest) ∧ TagsFinished rest := by
  constructor
  · intro hfinished
    refine ⟨?_, ?_⟩
    · rintro rfl
      exact hfinished [] rest rfl
    · intro before after hcut
      exact hfinished (c :: before) after (by rw [hcut, List.cons_append])
  · rintro ⟨hfirst, hrest⟩ before after hcut
    cases before with
    | nil =>
        cases hcut
        exact hfirst rfl
    | cons d before =>
        cases hcut
        exact hrest before after rfl

instance decidableGoesOnAsTag : DecidablePred GoesOnAsTag
  | [] => isFalse (by simp [GoesOnAsTag])
  | [a] => decidable_of_iff (isNameChar a = true) (by simp [GoesOnAsTag])
  | a :: b :: rest =>
    decidable_of_iff (isNameChar a = true ∨ a = '/' ∧ isNameChar b = true) (by
      simp only [GoesOnAsTag, List.cons.injEq]
      grind)

instance decidableTagsFinished : DecidablePred TagsFinished
  | [] => isTrue (by
      intro before after hcut
      simp at hcut)
  | c :: rest =>
    have := decidableTagsFinished rest
    decidable_of_iff _ (tagsFinished_cons_iff c rest).symm

theorem TagsFinished.of_append
    {text more : Text} (hfinished : TagsFinished (text ++ more)) : TagsFinished more := by
  intro before after hcut
  exact hfinished (text ++ before) after (by rw [hcut, List.append_assoc])

/-- A text that ends with a `>` has no tag left unfinished. -/
theorem tagsFinished_concat (text : Text) : TagsFinished (text ++ ['>']) := by
  intro before after hcut hgoes
  have hlast : ('<' :: after).getLast? = some '>' := by
    have hends := congrArg List.getLast? hcut
    rw [List.getLast?_concat, List.getLast?_append_cons] at hends
    exact hends.symm
  obtain ⟨c, rest, -, rfl | rfl⟩ := hgoes
  · exact List.mem_of_getLast? (by rwa [List.getLast?_cons_cons] at hlast)
  · exact List.mem_of_getLast? (by rwa [List.getLast?_cons_cons] at hlast)

/-- The scan goes on behind a text whose tags are finished as if nothing stood before. -/
theorem Scans.append
    {offset : ℕ} {text : Text} {found : List Tag} (hscan : Scans offset text found)
    (hfinished : TagsFinished text) {more : Text} (hhead : more.head? = some '<')
    {others : List Tag} (hmore : Scans (offset + text.length) more others) :
    Scans offset (text ++ more) (found ++ others) := by
  induction hscan with
  | nil => exact hmore
  | @pass offset c rest found hstarts hscan ih =>
      obtain ⟨hfirst, hrest⟩ := (tagsFinished_cons_iff c rest).mp hfinished
      refine .pass (fun hlong => hstarts ?_) (ih hrest ?_)
      · obtain ⟨rfl, hgoes, -⟩ := (startsTag_cons_iff _ _).mp hlong
        have hgoes := hgoes.of_append hhead
        exact (startsTag_cons_iff _ _).mpr ⟨rfl, hgoes, hfirst rfl hgoes⟩
      · rwa [List.length_cons, Nat.add_comm rest.length, ← Nat.add_assoc] at hmore
  | @tag offset kind name lexeme rest found htag hscan ih =>
      rw [List.append_assoc]
      refine .tag htag (ih hfinished.of_append ?_)
      rwa [List.length_append, ← Nat.add_assoc] at hmore

/-- Behind finished tags the tags of what is added are found as if it stood alone. -/
theorem tags_append
    {text : Text} (hfinished : TagsFinished text) {more : Text} (hhead : more.head? = some '<')
    {others : List Tag} (hmore : Scans text.length more others) :
    tags (text ++ more) = tags text ++ others := by
  have hscan := (scans_iff text (tags text)).mpr rfl
  refine ((scans_iff _ _).mp (hscan.append hfinished hhead ?_)).symm
  rwa [Nat.zero_add]

/-! ## Closing the innermost tag -/

theorem isName_of_mem_unclosed
    {text name : Text} (hname : name ∈ unclosed (tags text)) :
    IsName name := by
  rw [unclosed_eq_names_unmatched, List.mem_map] at hname
  obtain ⟨tag, htag, rfl⟩ := hname
  have hscan := (scans_iff text _).mpr rfl
  exact (hscan.bounds tag ((unmatched_sublist _).subset htag)).2.2

/-- A closing tag with the name of the innermost open tag closes that tag. -/
theorem unclosed_concat_closing
    {tags : List Tag} {tag : Tag} (hkind : tag.kind = .closing)
    (hlast : (unclosed tags).getLast? = some tag.name) :
    unclosed (tags ++ [tag]) = (unclosed tags).dropLast := by
  rw [unclosed, List.getLast?_reverse, List.head?_eq_some_iff] at hlast
  obtain ⟨outer, hstack⟩ := hlast
  rw [unclosed, unclosed, List.foldl_append, List.foldl_cons, List.foldl_nil, hstack]
  simp [openAfter, hkind]

end Markup
end Reindent
