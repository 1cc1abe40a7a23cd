import Reindent.Proofs.Markup.Scan

/-!
# Open tags are the unmatched ones

A closing tag takes the nearest open tag of its name off the stack, wherever it stands there.  The
tags of different names do not get in each other's way: an opening tag is taken off by the first
closing tag of its name up to which the tags of that name are balanced, and it stays open if there
is none.

Whether there is one can be counted.  `strays` is the number of closing tags in a list that find no
opening tag of their name before them in the list, and an opening tag is matched when a stray
follows it.  One more tag at the end of the list changes the unmatched tags just as it changes the
stack, and the two agree by induction over the tags.
-/

namespace Reindent
namespace Markup

/-! ## Matching -/

/-- The kinds of the tags of a name, in the order of the tags. -/
def kindsOf (name : Text) (tags : List Tag) : List TagKind :=
  (tags.filter fun tag => decide (tag.name = name)).map Tag.kind

/-- How many tags open the element of a name. -/
def opened (name : Text) (tags : List Tag) : ℕ :=
  (kindsOf name tags).count .opening

/-- How many tags close the element of a name. -/
def closed (name : Text) (tags : List Tag) : ℕ :=
  (kindsOf name tags).count .closing

/-- The tags of a name are balanced: as many open as close in the whole list, and no front of the
list has more of them that close. -/
structure Balanced (name : Text) (tags : List Tag) : Prop where
  closed_le : ∀ front, front <+: tags → closed name front ≤ opened name front
  closed_eq : closed name tags = opened name tags

/-- An opening tag is matched by a later closing tag of its name with balanced tags of that name
between them. -/
def IsMatched (name : Text) (later : List Tag) : Prop :=
  ∃ between closing rest, later = between ++ closing :: rest ∧
    closing.kind = .closing ∧ closing.name = name ∧ Balanced name between

/-- A tag with the tags behind it is an opening tag that is not matched. -/
def StaysOpen (tag : Tag) (later : List Tag) : Prop :=
  tag.kind = .opening ∧ ¬ IsMatched tag.name later

/-- How many closing tags have no opening tag before them that they could match. -/
def strays : List TagKind → ℕ
  | [] => 0
  | .opening :: later => strays later - 1
  | .closing :: later => strays later + 1
  | .selfClosing :: later => strays later

theorem kindsOf_cons_of_eq {name : Text} {tag : Tag} (hname : tag.name = name) (tags : List Tag) :
    kindsOf name (tag :: tags) = tag.kind :: kindsOf name tags := by
  simp [kindsOf, hname]

theorem kindsOf_cons_of_ne {name : Text} {tag : Tag} (hname : tag.name ≠ name) (tags : List Tag) :
    kindsOf name (tag :: tags) = kindsOf name tags := by
  simp [kindsOf, hname]

theorem kindsOf_concat_of_eq {name : Text} {tag : Tag} (hname : tag.name = name) (tags : List Tag) :
    kindsOf name (tags ++ [tag]) = kindsOf name tags ++ [tag.kind] := by
  simp [kindsOf, hname]

theorem kindsOf_concat_of_ne {name : Text} {tag : Tag} (hname : tag.name ≠ name) (tags : List Tag) :
    kindsOf name (tags ++ [tag]) = kindsOf name tags := by
  simp [kindsOf, hname]

theorem count_kindsOf_cons (name : Text) (kind : TagKind) (tag : Tag) (tags : List Tag) :
    (kindsOf name (tag :: tags)).count kind =
      (kindsOf name tags).count kind + if tag.name = name ∧ tag.kind = kind then 1 else 0 := by
  by_cases hname : tag.name = name
  · simp [kindsOf_cons_of_eq hname, List.count_cons, hname]
  · simp [kindsOf_cons_of_ne hname, hname]

/-- For the number of tags it does not matter where the tag stands. -/
theorem count_kindsOf_concat (name : Text) (kind : TagKind) (tags : List Tag) (tag : Tag) :
    (kindsOf name (tags ++ [tag])).count kind =
      (kindsOf name tags).count kind + if tag.name = name ∧ tag.kind = kind then 1 else 0 := by
  have hperm : (kindsOf name (tags ++ [tag])).Perm (kindsOf name (tag :: tags)) :=
    ((List.perm_append_singleton tag tags).filter _).map _
  rw [hperm.count_eq, count_kindsOf_cons]

theorem opened_cons (name : Text) (tag : Tag) (tags : List Tag) :
    opened name (tag :: tags) =
      opened name tags + if tag.name = name ∧ tag.kind = .opening then 1 else 0 :=
  count_kindsOf_cons name .opening tag tags

theorem closed_cons (name : Text) (tag : Tag) (tags : List Tag) :
    closed name (tag :: tags) =
      closed name tags + if tag.name = name ∧ tag.kind = .closing then 1 else 0 :=
  count_kindsOf_cons name .closing tag tags

theorem opened_concat (name : Text) (tags : List Tag) (tag : Tag) :
    opened name (tags ++ [tag]) =
      opened name tags + if tag.name = name ∧ tag.kind = .opening then 1 else 0 :=
  count_kindsOf_concat name .opening tags tag

theorem closed_concat (name : Text) (tags : List Tag) (tag : Tag) :
    closed name (tags ++ [tag]) =
      closed name tags + if tag.name = name ∧ tag.kind = .closing then 1 else 0 :=
  count_kindsOf_concat name .closing tags tag

/-- The strays are the most that a front of the list closes beyond what it opens. -/
theorem lt_strays_iff (name : Text) (depth : ℕ) (tags : List Tag) :
    depth < strays (kindsOf name tags) ↔
      ∃ front, front <+: tags ∧ opened name front + depth < closed name front := by
  induction tags generalizing depth with
  | nil => simp [kindsOf, strays, opened, closed]
  | cons tag tags ih =>
      have hfronts : (∃ front, front <+: tag :: tags ∧
            opened name front + depth < closed name front) ↔
          ∃ front, front <+: tags ∧
            opened name (tag :: front) + depth < closed name (tag :: front) := by
        constructor
        · rintro ⟨front, hfront, hlt⟩
          rcases List.prefix_cons_iff.mp hfront with rfl | ⟨rest, rfl, hrest⟩
          · simp [opened, closed, kindsOf] at hlt
          · exact ⟨rest, hrest, hlt⟩
        · rintro ⟨front, hfront, hlt⟩
          exact ⟨tag :: front, List.cons_prefix_cons.mpr ⟨rfl, hfront⟩, hlt⟩
      rw [hfronts]
      simp only [opened_cons, closed_cons]
      by_cases hname : tag.name = name
      · rw [kindsOf_cons_of_eq hname]
        cases hkind : tag.kind with
        | opening =>
            have hraised := ih (depth + 1)
            simp only [strays, hname, reduceCtorEq, and_true, and_false, if_true, if_false]
            rw [Nat.lt_sub_iff_add_lt, hraised]
            simp only [Nat.add_assoc, Nat.add_zero, Nat.add_comm 1]
        | closing =>
            simp only [strays, hname, reduceCtorEq, and_true, and_false, if_true, if_false,
              Nat.add_zero]
            cases depth with
            | zero =>
                refine iff_of_true (Nat.succ_pos _) ⟨[], List.nil_prefix, ?_⟩
                simp [opened, closed, kindsOf]
            | succ depth =>
                rw [Nat.succ_lt_succ_iff, ih depth]
                simp only [← Nat.add_assoc, Nat.succ_lt_succ_iff]
        | selfClosing =>
            simpa [strays, hname] using ih depth
      · rw [kindsOf_cons_of_ne hname]
        simpa [hname] using ih depth

/-- Without a match no front of the tags closes more than it opens: the first one to do so would end
with the closing tag of a match. -/
theorem closed_le_of_not_isMatched
    {name : Text} {later : List Tag} (hmatched : ¬ IsMatched name later)
    {front : List Tag} (hfront : front <+: later) :
    ∀ short, short <+: front → closed name short ≤ opened name short := by
  induction front using List.reverseRecOn with
  | nil =>
      intro short hshort
      rw [List.prefix_nil.mp hshort]
      exact Nat.le_refl _
  | append_singleton front tag ih =>
      have hrest := ih ((List.prefix_append front [tag]).trans hfront)
      intro short hshort
      rcases List.prefix_concat_iff.mp hshort with rfl | hshort
      · rw [opened_concat, closed_concat]
        have hle := hrest front List.prefix_rfl
        by_cases hcloses : tag.name = name ∧ tag.kind = .closing
        · have hne : closed name front ≠ opened name front := by
            intro heq
            obtain ⟨rest, rfl⟩ := hfront
            exact hmatched ⟨front, tag, rest, by simp, hcloses.2, hcloses.1, hrest, heq⟩
          rw [if_pos hcloses]
          omega
        · rw [if_neg hcloses]
          omega
      · exact hrest short hshort

/-- An opening tag is matched when a stray closing tag of its name follows. -/
theorem isMatched_iff (name : Text) (later : List Tag) :
    IsMatched name later ↔ 0 < strays (kindsOf name later) := by
  rw [lt_strays_iff]
  constructor
  · rintro ⟨between, closing, rest, rfl, hkind, hname, hbalanced⟩
    refine ⟨between ++ [closing], ⟨rest, by simp⟩, ?_⟩
    rw [opened_concat, closed_concat, hbalanced.closed_eq]
    simp [hname, hkind]
  · rintro ⟨front, hfront, hlt⟩
    by_contra hmatched
    have hle := closed_le_of_not_isMatched hmatched hfront front List.prefix_rfl
    omega

theorem staysOpen_iff (tag : Tag) (later : List Tag) :
    StaysOpen tag later ↔ tag.kind = .opening ∧ strays (kindsOf tag.name later) = 0 := by
  rw [StaysOpen, isMatched_iff, Nat.pos_iff_ne_zero, not_not]

instance decidableStaysOpen (tag : Tag) (later : List Tag) : Decidable (StaysOpen tag later) :=
  decidable_of_iff _ (staysOpen_iff tag later).symm

/-! ## The unmatched tags -/

/-- Every tag of a list with the answer whether it stays open. -/
def answers : List Tag → List (Tag × Bool)
  | [] => []
  | tag :: later => (tag, decide (StaysOpen tag later)) :: answers later

/-- The opening tags that stay open, in the order of the tags. -/
def unmatched (tags : List Tag) : List Tag :=
  ((answers tags).filter Prod.snd).map Prod.fst

/-- The answers for the tags of one name, in the order of the tags. -/
def answersFor (name : Text) (tags : List Tag) : List Bool :=
  ((answers tags).filter fun answer => decide (answer.1.name = name)).map Prod.snd

theorem unmatched_sublist (tags : List Tag) : (unmatched tags).Sublist tags := by
  have hall : (answers tags).map Prod.fst = tags := by
    induction tags with
    | nil => rfl
    | cons tag tags ih => rw [answers, List.map_cons, ih]
  conv_rhs => rw [← hall]
  exact List.filter_sublist.map Prod.fst

theorem unmatched_cons_of_staysOpen
    {tag : Tag} {later : List Tag} (hopen : StaysOpen tag later) :
    unmatched (tag :: later) = tag :: unmatched later := by
  simp [unmatched, answers, hopen]

theorem unmatched_cons_of_not_staysOpen
    {tag : Tag} {later : List Tag} (hopen : ¬ StaysOpen tag later) :
    unmatched (tag :: later) = unmatched later := by
  simp [unmatched, answers, hopen]

/-- Which tags of one name stay open, from their kinds alone. -/
def standing : List TagKind → List Bool
  | [] => []
  | kind :: later => decide (kind = .opening ∧ strays later = 0) :: standing later

/-- Which tags of a name stay open is settled by the kinds of the tags of that name. -/
theorem answersFor_eq_standing (name : Text) (tags : List Tag) :
    answersFor name tags = standing (kindsOf name tags) := by
  induction tags with
  | nil => rfl
  | cons tag tags ih =>
      by_cases hname : tag.name = name
      · subst hname
        rw [kindsOf_cons_of_eq rfl, standing, ← ih]
        simp [answersFor, answers, staysOpen_iff]
      · rw [kindsOf_cons_of_ne hname, ← ih]
        simp [answersFor, answers, hname]

theorem count_names_unmatched (name : Text) (tags : List Tag) :
    ((unmatched tags).map Tag.name).count name = (standing (kindsOf name tags)).count true := by
  rw [← answersFor_eq_standing]
  induction tags with
  | nil => rfl
  | cons tag tags ih =>
      by_cases hopen : StaysOpen tag tags
      · rw [unmatched_cons_of_staysOpen hopen]
        by_cases hname : tag.name = name <;> simp_all [answersFor, answers]
      · rw [unmatched_cons_of_not_staysOpen hopen]
        by_cases hname : tag.name = name <;> simp_all [answersFor, answers]

theorem mem_names_unmatched_iff (name : Text) (tags : List Tag) :
    name ∈ (unmatched tags).map Tag.name ↔ true ∈ standing (kindsOf name tags) := by
  rw [← List.count_pos_iff, ← List.count_pos_iff, count_names_unmatched]

/-! ## One more tag -/

theorem strays_concat_of_ne
    {kind : TagKind} (hkind : kind ≠ .closing) (kinds : List TagKind) :
    strays (kinds ++ [kind]) = strays kinds := by
  induction kinds with
  | nil => cases kind <;> simp_all [strays]
  | cons first kinds ih => cases first <;> simp [strays, ih]

/-- A closing tag at the end is a stray unless some opening tag was left for it. -/
theorem strays_concat_closing (kinds : List TagKind) :
    strays (kinds ++ [.closing]) = strays kinds + if true ∈ standing kinds then 0 else 1 := by
  induction kinds with
  | nil => rfl
  | cons first kinds ih =>
      cases first with
      | opening =>
          have hstands : true ∈ standing (.opening :: kinds) ↔
              strays kinds = 0 ∨ true ∈ standing kinds := by
            simp [standing]
          simp only [List.cons_append, strays, ih, hstands]
          by_cases hlater : true ∈ standing kinds
          · simp only [hlater, or_true, if_true]
            omega
          · simp only [hlater, or_false, if_false]
            split <;> omega
      | closing => simp [strays, standing, ih, Nat.add_right_comm]
      | selfClosing => simp [strays, standing, ih]

/-- Only a closing tag of the same name can match an opening tag. -/
theorem staysOpen_concat_iff
    (first : Tag) {tag : Tag} (htag : tag.kind ≠ .closing ∨ tag.name ≠ first.name)
    (later : List Tag) :
    StaysOpen first (later ++ [tag]) ↔ StaysOpen first later := by
  rw [staysOpen_iff, staysOpen_iff]
  by_cases hname : tag.name = first.name
  · have hkind : tag.kind ≠ .closing := htag.resolve_right (not_not.mpr hname)
    rw [kindsOf_concat_of_eq hname, strays_concat_of_ne hkind]
  · rw [kindsOf_concat_of_ne hname]

/-- A closing tag of the same name leaves an opening tag open if there is a later one for it. -/
theorem staysOpen_concat_closing_iff
    {first tag : Tag} (hkind : tag.kind = .closing) (hname : tag.name = first.name)
    (later : List Tag) :
    StaysOpen first (later ++ [tag]) ↔
      StaysOpen first later ∧ tag.name ∈ (unmatched later).map Tag.name := by
  rw [staysOpen_iff, staysOpen_iff, kindsOf_concat_of_eq hname, hkind, strays_concat_closing,
    hname, mem_names_unmatched_iff]
  split <;> simp_all

/-- A tag that closes nothing is added to the unmatched ones if it opens an element. -/
theorem unmatched_concat_of_ne
    {tag : Tag} (hkind : tag.kind ≠ .closing) (tags : List Tag) :
    unmatched (tags ++ [tag]) = unmatched tags ++ unmatched [tag] := by
  induction tags with
  | nil => rfl
  | cons first tags ih =>
      have hsame := staysOpen_concat_iff first (.inl hkind) tags
      by_cases hopen : StaysOpen first tags
      · rw [List.cons_append, unmatched_cons_of_staysOpen (hsame.mpr hopen),
          unmatched_cons_of_staysOpen hopen, ih, List.cons_append]
      · rw [List.cons_append, unmatched_cons_of_not_staysOpen (mt hsame.mp hopen),
          unmatched_cons_of_not_staysOpen hopen, ih]

/-- A closing tag takes the last unmatched tag of its name away. -/
theorem names_unmatched_concat_closing
    {tag : Tag} (hkind : tag.kind = .closing) (tags : List Tag) :
    ((unmatched (tags ++ [tag])).map Tag.name).reverse =
      ((unmatched tags).map Tag.name).reverse.erase tag.name := by
  induction tags with
  | nil =>
      have hopen : ¬ StaysOpen tag [] := by simp [StaysOpen, hkind]
      rw [List.nil_append, unmatched_cons_of_not_staysOpen hopen]
      rfl
  | cons first tags ih =>
      rw [List.cons_append]
      by_cases hopen : StaysOpen first tags
      · rw [unmatched_cons_of_staysOpen hopen, List.map_cons, List.reverse_cons,
          List.erase_append]
        simp only [List.mem_reverse]
        by_cases hlater : tag.name ∈ (unmatched tags).map Tag.name
        · have hstill : StaysOpen first (tags ++ [tag]) := by
            by_cases hname : tag.name = first.name
            · exact (staysOpen_concat_closing_iff hkind hname tags).mpr ⟨hopen, hlater⟩
            · exact (staysOpen_concat_iff first (.inr hname) tags).mpr hopen
          rw [if_pos hlater, unmatched_cons_of_staysOpen hstill, List.map_cons,
            List.reverse_cons, ih]
        · have hrest : ((unmatched tags).map Tag.name).reverse.erase tag.name =
              ((unmatched tags).map Tag.name).reverse :=
            List.erase_of_not_mem (by simpa using hlater)
          rw [if_neg hlater]
          by_cases hname : tag.name = first.name
          · -- This is the tag that the closing one takes.
            have hgone : ¬ StaysOpen first (tags ++ [tag]) := by
              rw [staysOpen_concat_closing_iff hkind hname]
              exact fun h => hlater h.2
            rw [unmatched_cons_of_not_staysOpen hgone, ih, hrest, hname, List.erase_cons_head,
              List.append_nil]
          · have hstill : StaysOpen first (tags ++ [tag]) :=
              (staysOpen_concat_iff first (.inr hname) tags).mpr hopen
            rw [unmatched_cons_of_staysOpen hstill, List.map_cons, List.reverse_cons, ih, hrest,
              List.erase_of_not_mem (by simpa using hname)]
      · have hstill : ¬ StaysOpen first (tags ++ [tag]) := by
          by_cases hname : tag.name = first.name
          · rw [staysOpen_concat_closing_iff hkind hname]
            exact fun h => hopen h.1
          · rwa [staysOpen_concat_iff first (.inr hname)]
        rw [unmatched_cons_of_not_staysOpen hopen, unmatched_cons_of_not_staysOpen hstill, ih]

/-- One more tag changes the stack as it changes the unmatched tags. -/
theorem openAfter_names_unmatched (tags : List Tag) (tag : Tag) :
    openAfter ((unmatched tags).map Tag.name).reverse tag =
      ((unmatched (tags ++ [tag])).map Tag.name).reverse := by
  cases hkind : tag.kind with
  | opening =>
      have hopen : StaysOpen tag [] := (staysOpen_iff tag []).mpr ⟨hkind, rfl⟩
      rw [unmatched_concat_of_ne (by simp [hkind]), unmatched_cons_of_staysOpen hopen]
      simp [openAfter, hkind, unmatched, answers]
  | closing =>
      rw [names_unmatched_concat_closing hkind]
      simp [openAfter, hkind]
  | selfClosing =>
      have hopen : ¬ StaysOpen tag [] := by simp [StaysOpen, hkind]
      rw [unmatched_concat_of_ne (by simp [hkind]), unmatched_cons_of_not_staysOpen hopen]
      simp [openAfter, hkind, unmatched, answers]

/-- The open tags of a list are the names of its unmatched tags. -/
theorem unclosed_eq_names_unmatched (tags : List Tag) :
    unclosed tags = (unmatched tags).map Tag.name := by
  have hstack : tags.foldl openAfter [] = ((unmatched tags).map Tag.name).reverse := by
    induction tags using List.reverseRecOn with
    | nil => rfl
    | append_singleton tags tag ih =>
        rw [List.foldl_append, List.foldl_cons, List.foldl_nil, ih, openAfter_names_unmatched]
  rw [unclosed, hstack, List.reverse_reverse]

/-- The open tags at an offset are the names of the unmatched opening tags that the scan of the text
before the offset finds, in the order of the text.  How many tags of a name stay open, and which of
them, depends on the kinds of the tags of that name alone: it is the same in every other text with
these kinds, whatever tags of other names stand before, between and behind them. -/
theorem openTags_eq_names_unmatched
    (text : Text) (offset : Int) {found : List Tag}
    (hfound : Scans 0 (text.take offset.toNat) found) :
    openTags text offset = (unmatched found).map Tag.name ∧
      ∀ (name other : Text) (otherOffset : Int) (others : List Tag),
        Scans 0 (other.take otherOffset.toNat) others →
          kindsOf name others = kindsOf name found →
            (openTags other otherOffset).count name = (openTags text offset).count name ∧
              answersFor name others = answersFor name found := by
  have hread : ∀ {text : Text} {offset : Int} {found : List Tag},
      Scans 0 (text.take offset.toNat) found →
        openTags text offset = (unmatched found).map Tag.name := by
    intro text offset found hscan
    rw [openTags, ← (scans_iff _ _).mp hscan, unclosed_eq_names_unmatched]
  refine ⟨hread hfound, ?_⟩
  intro name other otherOffset others hothers hkinds
  rw [hread hfound, hread hothers, count_names_unmatched, count_names_unmatched,
    answersFor_eq_standing, answersFor_eq_standing, hkinds]
  exact ⟨rfl, rfl⟩

/-- Two elements that overlap, and a third one that stays open. -/
def overlapping : Text :=
  "<a><b></a><a></b></c>".toList

/-- The same tags of the first name, with other tags around them. -/
def apart : Text :=
  "<c><a x><br/></a></c><a>".toList

theorem openTags_overlapping :
    Scans 0 (overlapping.take 21) (tags overlapping) ∧
      Scans 0 (apart.take 24) (tags apart) ∧
      kindsOf ['a'] (tags apart) = kindsOf ['a'] (tags overlapping) ∧
      openTags overlapping 21 = [['a']] ∧
      (openTags apart 24).count ['a'] = (openTags overlapping 21).count ['a'] ∧
      answersFor ['a'] (tags apart) = [false, false, true] := by
  have hfirst : Scans 0 (overlapping.take 21) (tags overlapping) := (scans_iff _ _).mpr rfl
  have hsecond : Scans 0 (apart.take 24) (tags apart) := (scans_iff _ _).mpr rfl
  have hkinds : kindsOf ['a'] (tags apart) = kindsOf ['a'] (tags overlapping) := by decide
  obtain ⟨hopen, hother⟩ := openTags_eq_names_unmatched overlapping 21 hfirst
  obtain ⟨hcount, hanswers⟩ := hother ['a'] apart 24 (tags apart) hsecond hkinds
  refine ⟨hfirst, hsecond, hkinds, ?_, hcount, ?_⟩
  · rw [hopen]
    decide
  · rw [hanswers]
    decide

end Markup
end Reindent
