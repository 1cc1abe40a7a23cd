import Reindent.Proofs.Buffer.Replacement

/-!
# Edits made all at once

All edits of a list refer to the text before any of them is made.  What this means is said here in
two ways that do not mention the sorted list or a cursor.  `replaced` goes through the offsets of
the text and says what each of them becomes.  `LastFirst` is the order in which the replacements
can be made one after the other, each in the text that the one before it has left: a replacement
does not move what stands before it, so the last one comes first.
-/

namespace Reindent
namespace Buffer

/-! ## What is written at an offset -/

/-- What an offset of the text becomes: the texts put in there in the order of the list, then the
text of a replacement that starts there, then the character itself unless a replacement covers
it. -/
def writtenAt (text : Text) (rs : List Replacement) (offset : ℕ) : Text :=
  (withExtent rs (offset, offset)).flatMap Replacement.newText ++
    (rs.filter fun r => decide (r.start = offset ∧ offset < r.stop)).flatMap Replacement.newText ++
    if rs.any fun r => decide (r.start ≤ offset ∧ offset < r.stop) then []
    else text[offset]?.toList

/-- The text with all replacements made at once; the offset behind the last character counts. -/
def replaced (text : Text) (rs : List Replacement) : Text :=
  (List.range (text.length + 1)).flatMap (writtenAt text rs)

/-- The text from an offset on, with all replacements made at once. -/
def replacedFrom (text : Text) (rs : List Replacement) (offset : ℕ) : Text :=
  (List.range' offset (text.length + 1 - offset)).flatMap (writtenAt text rs)

theorem replaced_eq_replacedFrom (text : Text) (rs : List Replacement) :
    replaced text rs = replacedFrom text rs 0 := by
  rw [replaced, replacedFrom, List.range_eq_range', Nat.sub_zero]

section

variable {r : Replacement} {rest : List Replacement} {offset : ℕ}

/-- Before its start a replacement writes nothing. -/
theorem writtenAt_cons_of_lt_start
    (hlt : offset < r.start) (text : Text) :
    writtenAt text (r :: rest) offset = writtenAt text rest offset := by
  have hne : r.start ≠ offset := by omega
  have hcovers : ¬ r.start ≤ offset := by omega
  simp [writtenAt, withExtent, Replacement.extent, hne, hcovers]

/-- Behind its stop, or at it if it covers something, a replacement writes nothing. -/
theorem writtenAt_cons_of_start_lt
    (hlt : r.start < offset) (hstop : r.stop ≤ offset) (text : Text) :
    writtenAt text (r :: rest) offset = writtenAt text rest offset := by
  have hne : r.start ≠ offset := by omega
  have hcovers : ¬ offset < r.stop := by omega
  simp [writtenAt, withExtent, Replacement.extent, hne, hcovers]

/-- A text that is put in comes before all that is written at its offset. -/
theorem writtenAt_cons_of_insertion
    (hstart : r.start = offset) (hstop : r.stop = offset) (text : Text) :
    writtenAt text (r :: rest) offset = r.newText ++ writtenAt text rest offset := by
  simp [writtenAt, withExtent, Replacement.extent, hstart, hstop]

theorem writtenAt_of_lt_start
    (hrest : ∀ r ∈ rest, offset < r.start) (text : Text) :
    writtenAt text rest offset = text[offset]?.toList := by
  induction rest with
  | nil => rfl
  | cons r rest ih =>
      obtain ⟨hr, hrest⟩ := List.forall_mem_cons.mp hrest
      rw [writtenAt_cons_of_lt_start hr, ih hrest]

/-- A stretch that a replacement covers becomes its text at the first offset and nothing at the
others. -/
theorem writtenAt_cons_of_covered
    (hstart : r.start ≤ offset) (hstop : offset < r.stop) (hrest : ∀ r' ∈ rest, offset < r'.start)
    (text : Text) :
    writtenAt text (r :: rest) offset = if r.start = offset then r.newText else [] := by
  have hinserted : withExtent rest (offset, offset) = [] := by
    rw [List.eq_nil_iff_forall_not_mem]
    intro r' hr'
    obtain ⟨hmem, hextent⟩ := mem_withExtent_iff.mp hr'
    have := hrest r' hmem
    have := (Prod.mk.inj hextent).1
    omega
  have hstarted : (rest.filter fun r' => decide (r'.start = offset ∧ offset < r'.stop)) = [] := by
    rw [List.filter_eq_nil_iff]
    intro r' hr'
    have := hrest r' hr'
    rw [decide_eq_true_iff]
    omega
  have hextent : r.extent ≠ (offset, offset) := by
    intro h
    have := (Prod.mk.inj h).2
    omega
  rw [writtenAt, withExtent_cons_of_ne hextent, hinserted, List.filter_cons, hstarted]
  by_cases heq : r.start = offset
  · simp [heq, hstop]
  · simp [heq, hstart, hstop]

end

/-! ## Stretches of offsets -/

theorem flatMap_range'_getElem (text : Text) (offset count : ℕ) :
    (List.range' offset count).flatMap (fun i => text[i]?.toList) =
      (text.drop offset).take count := by
  induction count generalizing offset with
  | zero => simp
  | succ count ih =>
      rw [List.range'_succ, List.flatMap_cons, ih]
      by_cases hlt : offset < text.length
      · rw [List.getElem?_eq_getElem hlt, List.drop_eq_getElem_cons hlt, List.take_succ_cons,
          Option.toList_some, List.singleton_append]
      · rw [Nat.not_lt] at hlt
        simp [List.getElem?_eq_none hlt, List.drop_eq_nil_of_le hlt,
          List.drop_eq_nil_of_le (Nat.le_succ_of_le hlt)]

theorem replacedFrom_nil (text : Text) (offset : ℕ) :
    replacedFrom text [] offset = text.drop offset := by
  have hall : (text.drop offset).length ≤ text.length + 1 - offset := by
    rw [List.length_drop]
    omega
  rw [replacedFrom, ← List.take_of_length_le hall]
  exact flatMap_range'_getElem text offset _

section

variable {text : Text} {rs : List Replacement} {offset stop : ℕ}

theorem replacedFrom_eq_append
    (hle : offset ≤ stop) (hstop : stop ≤ text.length + 1) :
    replacedFrom text rs offset =
      (List.range' offset (stop - offset)).flatMap (writtenAt text rs) ++
        replacedFrom text rs stop := by
  have hcount : text.length + 1 - offset = (stop - offset) + (text.length + 1 - stop) := by omega
  have hnext : offset + (stop - offset) = stop := by omega
  rw [replacedFrom, hcount, ← List.range'_append_1, hnext, List.flatMap_append, ← replacedFrom]

theorem replacedFrom_congr
    {rs' : List Replacement}
    (heq : ∀ place, offset ≤ place → writtenAt text rs place = writtenAt text rs' place) :
    replacedFrom text rs offset = replacedFrom text rs' offset := by
  apply List.flatMap_congr
  intro place hplace
  exact heq place (List.mem_range'_1.mp hplace).1

/-- Up to the first start the text stays as it is. -/
theorem flatMap_writtenAt_eq_slice
    (hrs : ∀ r ∈ rs, stop ≤ r.start) :
    (List.range' offset (stop - offset)).flatMap (writtenAt text rs) = slice text offset stop := by
  rw [slice, ← flatMap_range'_getElem]
  apply List.flatMap_congr
  intro place hplace
  obtain ⟨hfirst, hlast⟩ := List.mem_range'_1.mp hplace
  apply writtenAt_of_lt_start
  intro r hr
  have := hrs r hr
  omega

end

section

variable {text : Text} {r : Replacement} {rest : List Replacement}
variable (hfits : r.Fits text) (hrest : ∀ r' ∈ rest, r.stop ≤ r'.start)
include hfits hrest

theorem replacedFrom_start_of_lt (hlt : r.start < r.stop) :
    replacedFrom text (r :: rest) r.start = r.newText ++ replacedFrom text rest r.stop := by
  have hcovered : ∀ place, r.start ≤ place → place < r.stop →
      writtenAt text (r :: rest) place = if r.start = place then r.newText else [] := by
    intro place hstart hstop
    refine writtenAt_cons_of_covered hstart hstop ?_ text
    intro r' hr'
    exact hstop.trans_le (hrest r' hr')
  have hfirst := hcovered r.start (Nat.le_refl _) hlt
  rw [if_pos rfl] at hfirst
  have hothers : (List.range' (r.start + 1) (r.stop - (r.start + 1))).flatMap
      (writtenAt text (r :: rest)) = [] := by
    rw [List.flatMap_eq_nil_iff]
    intro place hplace
    obtain ⟨hafter, hbefore⟩ := List.mem_range'_1.mp hplace
    rw [hcovered place (by omega) (by omega), if_neg (by omega)]
  have hbehind : replacedFrom text (r :: rest) r.stop = replacedFrom text rest r.stop := by
    apply replacedFrom_congr
    intro place hplace
    exact writtenAt_cons_of_start_lt (hlt.trans_le hplace) hplace text
  have hcount : r.stop - r.start = (r.stop - (r.start + 1)) + 1 := by omega
  rw [replacedFrom_eq_append hlt.le (Nat.le_succ_of_le hfits.2), hcount, List.range'_succ,
    List.flatMap_cons, hfirst, hothers, hbehind, List.append_nil]

omit hrest in
theorem replacedFrom_start_of_eq (heq : r.start = r.stop) :
    replacedFrom text (r :: rest) r.start = r.newText ++ replacedFrom text rest r.stop := by
  have hone : ∀ rs, replacedFrom text rs r.stop =
      writtenAt text rs r.stop ++ replacedFrom text rs (r.stop + 1) := by
    intro rs
    rw [replacedFrom_eq_append (Nat.le_succ _) (Nat.succ_le_succ hfits.2)]
    simp
  have hbehind : replacedFrom text (r :: rest) (r.stop + 1) =
      replacedFrom text rest (r.stop + 1) := by
    apply replacedFrom_congr
    intro place hplace
    exact writtenAt_cons_of_start_lt (by omega) (by omega) text
  rw [heq, hone, hone, writtenAt_cons_of_insertion heq rfl, hbehind, List.append_assoc]

/-- The text from a cursor on goes up to the first replacement, through it, and on behind it. -/
theorem replacedFrom_cons
    {cursor : ℕ} (hcursor : cursor ≤ r.start) :
    replacedFrom text (r :: rest) cursor =
      slice text cursor r.start ++ r.newText ++ replacedFrom text rest r.stop := by
  have hstart : replacedFrom text (r :: rest) r.start =
      r.newText ++ replacedFrom text rest r.stop := by
    rcases Nat.lt_or_eq_of_le hfits.1 with hlt | heq
    · exact replacedFrom_start_of_lt hfits hrest hlt
    · exact replacedFrom_start_of_eq hfits heq
  have hbefore : ∀ r' ∈ r :: rest, r.start ≤ r'.start := by
    refine List.forall_mem_cons.mpr ⟨Nat.le_refl _, ?_⟩
    intro r' hr'
    exact hfits.1.trans (hrest r' hr')
  rw [replacedFrom_eq_append hcursor (hfits.1.trans (Nat.le_succ_of_le hfits.2)),
    flatMap_writtenAt_eq_slice hbefore, hstart, List.append_assoc]

end

/-! ## One replacement after the other -/

/-- A replacement made in a text. -/
def Replacement.made (r : Replacement) (text : Text) : Text :=
  text.take r.start ++ r.newText ++ text.drop r.stop

/-- The order in which replacements are made one after the other: all of them, the last extent
first, and of those with one extent the last of the list first. -/
structure LastFirst (rs order : List Replacement) : Prop where
  perm : order.Perm rs
  descending : order.Pairwise fun a b => b.le a = true
  sameExtent : ∀ extent, withExtent order extent = (withExtent rs extent).reverse

theorem withExtent_reverse (rs : List Replacement) (extent : ℕ × ℕ) :
    withExtent rs.reverse extent = (withExtent rs extent).reverse :=
  List.filter_reverse

theorem lastFirst_reverse_inOrder (rs : List Replacement) :
    LastFirst rs (inOrder rs).reverse where
  perm := (List.reverse_perm _).trans (inOrder_perm rs)
  descending := List.pairwise_reverse.mpr (pairwise_le_inOrder rs)
  sameExtent extent := by rw [withExtent_reverse, withExtent_inOrder]

/-- There is no other such order. -/
theorem LastFirst.eq_reverse_inOrder
    {rs order : List Replacement} (h : LastFirst rs order) :
    order = (inOrder rs).reverse := by
  have hascending : order.reverse.Pairwise fun a b => a.le b = true :=
    List.pairwise_reverse.mpr h.descending
  have hextents : ∀ extent, withExtent order.reverse extent = withExtent (inOrder rs) extent := by
    intro extent
    rw [withExtent_reverse, h.sameExtent, List.reverse_reverse, withExtent_inOrder]
  rw [← eq_of_withExtent_eq hascending (pairwise_le_inOrder rs) hextents, List.reverse_reverse]

/-- Replacements from an offset on leave the text before it alone. -/
theorem take_foldr_made
    {text : Text} {offset : ℕ} (hoffset : offset ≤ text.length) {rs : List Replacement}
    (hrs : ∀ r ∈ rs, offset ≤ r.start) :
    (rs.foldr Replacement.made text).take offset = text.take offset := by
  induction rs with
  | nil => rfl
  | cons r rest ih =>
      obtain ⟨hr, hrest⟩ := List.forall_mem_cons.mp hrs
      have hkept := ih hrest
      have hlength : offset ≤ (rest.foldr Replacement.made text).length := by
        have := congrArg List.length hkept
        rw [List.length_take, List.length_take] at this
        omega
      rw [List.foldr_cons, Replacement.made, List.append_assoc, List.take_append_of_le_length,
        List.take_take, Nat.min_eq_left hr, hkept]
      rw [List.length_take]
      omega

theorem drop_made
    {text after : Text} {r : Replacement} (hfits : r.Fits text)
    (hkept : after.take r.start = text.take r.start) {cursor : ℕ} (hcursor : cursor ≤ r.start) :
    (r.made after).drop cursor = slice text cursor r.start ++ r.newText ++ after.drop r.stop := by
  have hlength : (text.take r.start).length = r.start :=
    List.length_take_of_le (hfits.1.trans hfits.2)
  rw [Replacement.made, hkept, List.append_assoc, List.drop_append_of_le_length (by omega),
    List.drop_take, slice, List.append_assoc]

/-! ## The sweep over the sorted list -/

theorem splice_cons (text : Text) (cursor : ℕ) (r : Replacement) (rest : List Replacement) :
    splice text cursor (r :: rest) =
      if r.start < cursor then .error .overlap
      else (splice text r.stop rest).map (slice text cursor r.start ++ r.newText ++ ·) := by
  rw [splice]
  cases splice text r.stop rest <;> rfl

/-- The sweep is refused exactly when the replacements do not go in turn. -/
theorem splice_eq_error_iff
    {rs : List Replacement} (hrs : ∀ r ∈ rs, r.start ≤ r.stop) (text : Text) (cursor : ℕ) :
    splice text cursor rs = .error .overlap ↔ ¬ InTurn cursor rs := by
  induction rs generalizing cursor with
  | nil => simp [splice, InTurn]
  | cons r rest ih =>
      obtain ⟨hr, hrest⟩ := List.forall_mem_cons.mp hrs
      rw [splice_cons, inTurn_cons_iff hr, not_and_or, ← ih hrest, Nat.not_le]
      split
      · next hlt => exact iff_of_true rfl (Or.inl hlt)
      · next hlt =>
        rw [or_iff_right hlt]
        cases splice text r.stop rest <;> simp [Except.map]

/-- In turn, the sweep makes all replacements at once, and the same as one after the other from the
last to the first. -/
theorem splice_of_inTurn
    {text : Text} {rs : List Replacement} (hrs : ∀ r ∈ rs, r.Fits text) {cursor : ℕ}
    (hturn : InTurn cursor rs) :
    splice text cursor rs = .ok (replacedFrom text rs cursor) ∧
      (rs.foldr Replacement.made text).drop cursor = replacedFrom text rs cursor := by
  induction rs generalizing cursor with
  | nil =>
      rw [splice, replacedFrom_nil]
      exact ⟨rfl, rfl⟩
  | cons r rest ih =>
      obtain ⟨hr, hrest⟩ := List.forall_mem_cons.mp hrs
      obtain ⟨hcursor, hbehind⟩ := (inTurn_cons_iff hr.1).mp hturn
      obtain ⟨hsplice, hmade⟩ := ih hrest hbehind
      have hkept : (rest.foldr Replacement.made text).take r.start = text.take r.start := by
        apply take_foldr_made (hr.1.trans hr.2)
        intro r' hr'
        exact hr.1.trans (hbehind.1 r' hr')
      rw [replacedFrom_cons hr hbehind.1 hcursor]
      constructor
      · rw [splice_cons, if_neg (Nat.not_lt.mpr hcursor), hsplice]
        rfl
      · rw [List.foldr_cons, drop_made hr hkept hcursor, hmade]

/-! ## Edits -/

/-- In the order of the list or sorted, replacements that do not reach into each other write the
same at every offset. -/
theorem writtenAt_inOrder
    {rs : List Replacement} (hapart : rs.Pairwise Replacement.Apart) (text : Text) (offset : ℕ) :
    writtenAt text (inOrder rs) offset = writtenAt text rs offset := by
  have hperm := inOrder_perm rs
  -- At most one replacement that covers something starts at an offset.
  have hsingle : ∀ {l : List Replacement}, l.Pairwise Replacement.Apart →
      (l.filter fun r => decide (r.start = offset ∧ offset < r.stop)).Pairwise
        fun _ _ => False := by
    intro l hl
    rw [List.pairwise_filter]
    refine hl.imp ?_
    intro a b h ha hb
    rw [decide_eq_true_iff] at ha hb
    rcases h with h | h <;> omega
  have hstarted : (inOrder rs).filter (fun r => decide (r.start = offset ∧ offset < r.stop)) =
      rs.filter fun r => decide (r.start = offset ∧ offset < r.stop) := by
    refine List.Perm.eq_of_pairwise ?_
      (hsingle ((hperm.pairwise_iff Replacement.Apart.symm).mpr hapart)) (hsingle hapart)
      (hperm.filter _)
    intro a b _ _ h
    exact h.elim
  rw [writtenAt, writtenAt, withExtent_inOrder, hstarted, hperm.any_eq]

theorem replaced_inOrder
    {rs : List Replacement} (hapart : rs.Pairwise Replacement.Apart) (text : Text) :
    replaced text (inOrder rs) = replaced text rs := by
  apply List.flatMap_congr
  intro offset _
  exact writtenAt_inOrder hapart text offset

theorem withExtent_map_locate (text : Text) (edits : List Edit) (extent : ℕ × ℕ) :
    withExtent (edits.map (locate text)) extent =
      (edits.filter fun edit => decide ((locate text edit).extent = extent)).map (locate text) :=
  List.filter_map

/-- Only edits of one extent have to keep their order. -/
theorem applyAll_congr
    {text : Text} {edits edits' : List Edit}
    (hextents : ∀ extent,
      (edits'.filter fun edit => decide ((locate text edit).extent = extent)) =
        edits.filter fun edit => decide ((locate text edit).extent = extent)) :
    applyAll text edits' = applyAll text edits := by
  have hsorted : inOrder (edits'.map (locate text)) = inOrder (edits.map (locate text)) := by
    apply eq_of_withExtent_eq (pairwise_le_inOrder _) (pairwise_le_inOrder _)
    intro extent
    rw [withExtent_inOrder, withExtent_inOrder, withExtent_map_locate, withExtent_map_locate,
      hextents]
  rw [applyAll_eq_splice, applyAll_eq_splice, hsorted]

section

variable {text : Text} {edits : List Edit}
variable (hforward : ∀ edit ∈ edits, (locate text edit).start ≤ (locate text edit).stop)
include hforward

theorem fits_of_mem_map_locate :
    ∀ r ∈ edits.map (locate text), r.Fits text := by
  rw [List.forall_mem_map]
  intro edit hedit
  exact fits_locate (hforward edit hedit)

theorem applyAll_eq_error_iff :
    applyAll text edits = .error .overlap ↔ Overlapping (edits.map (locate text)) := by
  have hfits := fits_of_mem_map_locate hforward
  have hsorted : ∀ r ∈ inOrder (edits.map (locate text)), r.start ≤ r.stop :=
    fun r hr => (hfits r ((inOrder_perm _).mem_iff.mp hr)).1
  rw [applyAll_eq_splice, splice_eq_error_iff hsorted,
    inTurn_inOrder_iff (fun r hr => (hfits r hr).1), ← not_overlapping_iff, not_not]

theorem applyAll_of_not_overlapping (hapart : ¬ Overlapping (edits.map (locate text))) :
    applyAll text edits = .ok (replaced text (edits.map (locate text))) ∧
      (inOrder (edits.map (locate text))).foldr Replacement.made text =
        replaced text (edits.map (locate text)) := by
  rw [not_overlapping_iff] at hapart
  have hfits := fits_of_mem_map_locate hforward
  have hsorted : ∀ r ∈ inOrder (edits.map (locate text)), r.Fits text :=
    fun r hr => hfits r ((inOrder_perm _).mem_iff.mp hr)
  have hturn := (inTurn_inOrder_iff fun r hr => (hfits r hr).1).mpr hapart
  rw [applyAll_eq_splice, ← replaced_inOrder hapart, replaced_eq_replacedFrom]
  exact splice_of_inTurn hsorted hturn

end

/-- The edits of a list are made all at once.  They are refused exactly when two of them reach into
each other.  Otherwise the outcome is what making them one after the other gives, the last extent
first; texts put in at one offset stand there in the order of the list and before the text of a
replacement that starts there.  The order of the list counts for edits of one extent only. -/
theorem applyAll_replaces_at_once
    {text : Text} {edits : List Edit}
    (hforward : ∀ edit ∈ edits, (locate text edit).start ≤ (locate text edit).stop) :
    (applyAll text edits = .error .overlap ↔ Overlapping (edits.map (locate text))) ∧
      (∃ order, LastFirst (edits.map (locate text)) order) ∧
      (¬ Overlapping (edits.map (locate text)) →
        (∀ order, LastFirst (edits.map (locate text)) order →
          applyAll text edits = .ok (order.foldl (fun current r => r.made current) text)) ∧
        applyAll text edits = .ok (replaced text (edits.map (locate text)))) ∧
      (∀ edits' : List Edit, edits'.Perm edits →
        (∀ extent, (edits'.filter fun edit => decide ((locate text edit).extent = extent)) =
          edits.filter fun edit => decide ((locate text edit).extent = extent)) →
        applyAll text edits' = applyAll text edits) := by
  refine ⟨applyAll_eq_error_iff hforward, ⟨_, lastFirst_reverse_inOrder _⟩, ?_, ?_⟩
  · intro hapart
    obtain ⟨happly, hmade⟩ := applyAll_of_not_overlapping hforward hapart
    refine ⟨?_, happly⟩
    intro order horder
    rw [happly, horder.eq_reverse_inOrder, List.foldl_reverse]
    exact congrArg Except.ok hmade.symm
  · intro edits' _ hextents
    exact applyAll_congr hextents

/-- A line of six letters. -/
def letters : Text :=
  "abcdef".toList

/-- A replacement of two of them. -/
def covering : Edit where
  span := { start := { line := 0, character := 2 }, stop := { line := 0, character := 4 } }
  newText := "Y".toList

/-- The replacement between two texts put in at its start, and two texts put in at positions behind
the end of the text. -/
def touching : List Edit :=
  [.insert { line := 0, character := 2 } "X".toList, covering,
    .insert { line := 7, character := -1 } "!".toList,
    .insert { line := 0, character := 2 } "Z".toList,
    .insert { line := 0, character := 99 } "?".toList]

/-- The replacement may as well be the first edit of the list. -/
theorem applyAll_replaces_at_once_touching :
    (∀ edit ∈ touching, (locate letters edit).start ≤ (locate letters edit).stop) ∧
    ¬ Overlapping (touching.map (locate letters)) ∧
    applyAll letters touching = .ok "abXZYef!?".toList ∧
    applyAll letters (covering :: touching.erase covering) = .ok "abXZYef!?".toList := by
  have hforward : ∀ edit ∈ touching,
      (locate letters edit).start ≤ (locate letters edit).stop := by decide
  have hapart : ¬ Overlapping (touching.map (locate letters)) := by decide
  obtain ⟨-, -, hmade, horder⟩ := applyAll_replaces_at_once hforward
  have houtcome : applyAll letters touching = .ok "abXZYef!?".toList := by
    rw [(hmade hapart).2]
    decide +kernel
  refine ⟨hforward, hapart, houtcome, ?_⟩
  rw [← houtcome]
  refine horder _ (List.perm_cons_erase (by decide)).symm ?_
  intro extent
  by_cases hextent : (locate letters covering).extent = extent
  · rw [← hextent]
    decide
  · have hothers : touching.erase covering = touching.filter (· ≠ covering) := by decide
    rw [List.filter_cons_of_neg (by simpa using hextent), hothers, List.filter_filter]
    apply List.filter_congr
    intro edit _
    by_cases hedit : edit = covering
    · simp [hedit, hextent]
    · simp [hedit]

end Buffer
end Reindent
