import Reindent.Proofs.Json.Reading

/-!
# Written values are read back

A value with its parts on lines of their own is read as that value, whatever follows it.  The proof
goes over the value from its parts up: strings, numbers and words are read back, a group is read
back if its parts are, and each part is shorter than its group, so the reader goes deep enough.
-/

namespace Reindent
namespace Json

/-! ## Values without parts -/

theorem skipped_append
    {gaps : Text} (hgaps : ∀ c ∈ gaps, isGap c = true) (text : Text) :
    skipped (gaps ++ text) = skipped text :=
  List.dropWhile_append_of_pos hgaps

theorem skipped_cons {c : Char} (hc : isGap c = false) (text : Text) :
    skipped (c :: text) = c :: text := by
  simp [skipped, hc]

/-- A text that a number may stand before: no digit begins it. -/
def Stops (text : Text) : Prop :=
  ∀ c ∈ text.head?, c.isDigit = false

theorem stops_cons {c : Char} (hc : c.isDigit = false) (text : Text) : Stops (c :: text) := by
  rintro d hd
  rwa [← Option.some.inj hd]

theorem head?_toDigits_ne_zero {n : ℕ} (hn : 0 < n) :
    (Nat.toDigits 10 n).head? ≠ some '0' := by
  induction n using Nat.strongRecOn with
  | _ n ih =>
    rw [Nat.toDigits_eq_if (by omega)]
    split
    · next hlt =>
      have hdigit : ∀ d < 10, 0 < d → Nat.digitChar d ≠ '0' := by decide
      simpa using hdigit n hlt hn
    · next hge =>
      rw [List.head?_append_of_ne_nil _ Nat.toDigits_ne_nil]
      exact ih (n / 10) (by omega) (by omega)

theorem readNatural_toDigits (n : ℕ) {text : Text} (htext : Stops text) :
    readNatural (Nat.toDigits 10 n ++ text) = some (n, text) := by
  have hdigits : ∀ c ∈ Nat.toDigits 10 n, c.isDigit = true := fun c hc =>
    Nat.isDigit_of_mem_toDigits (by omega) (by omega) hc
  have hstop : text.takeWhile Char.isDigit = [] ∧ text.dropWhile Char.isDigit = text := by
    cases text with
    | nil => exact ⟨rfl, rfl⟩
    | cons c text => simp [htext c rfl]
  have hlead : (Nat.toDigits 10 n).head? = some '0' → Nat.toDigits 10 n = ['0'] := by
    intro hzero
    rcases Nat.eq_zero_or_pos n with rfl | hn
    · rfl
    · exact absurd hzero (head?_toDigits_ne_zero hn)
  rw [readNatural, List.takeWhile_append_of_pos hdigits, List.dropWhile_append_of_pos hdigits,
    hstop.1, hstop.2, List.append_nil, if_neg]
  · rw [Nat.ofDigitChars_toDigits (by omega) (by omega)]
  · simp only [Bool.or_eq_true, Bool.and_eq_true, decide_eq_true_eq, not_or, not_and]
    exact ⟨Nat.toDigits_ne_nil, fun hzero => by simp [hlead hzero]⟩

theorem ne_of_isDigit
    {c d : Char} (hc : c.isDigit = true) (hd : d.isDigit = false) : c ≠ d := by
  rintro rfl
  exact absurd (hc.symm.trans hd) (by decide)

theorem isGap_of_isDigit {c : Char} (hc : c.isDigit = true) : isGap c = false := by
  simp [isGap, ne_of_isDigit hc]

theorem readAtom_of_isDigit {c : Char} (hc : c.isDigit = true) (text : Text) :
    readAtom (c :: text) = (readNatural (c :: text)).map fun (n, rest) => (.int n, rest) := by
  rw [readAtom]
  · exact fun _ h => ne_of_isDigit hc rfl (List.cons.inj h).1
  · exact fun _ h => ne_of_isDigit hc rfl (List.cons.inj h).1
  · exact fun _ h => ne_of_isDigit hc rfl (List.cons.inj h).1
  · exact fun _ h => ne_of_isDigit hc rfl (List.cons.inj h).1

theorem readValue_of_isDigit {c : Char} (hc : c.isDigit = true) (depth : ℕ) (text : Text) :
    readValue (depth + 1) (c :: text) = readAtom (c :: text) := by
  rw [readValue, skipped_cons (isGap_of_isDigit hc)]
  split
  · next h => exact absurd (List.cons.inj h).1 (ne_of_isDigit hc rfl)
  · next h => exact absurd (List.cons.inj h).1 (ne_of_isDigit hc rfl)
  · next h => exact absurd (List.cons.inj h).1 (ne_of_isDigit hc rfl)
  · rfl

/-- A text that begins with something to read, and not with the end of a group. -/
def Begins (text : Text) : Prop :=
  ∃ c rest, text = c :: rest ∧ isGap c = false ∧ c ≠ ']' ∧ c ≠ '}'

/-- However deep the reader may go and whatever follows, a text is read as a value. -/
structure ReadsAs (text : Text) (v : Json) : Prop where
  begins : Begins text
  read : ∀ depth, text.length ≤ depth → ∀ rest, Stops rest →
    readValue depth (text ++ rest) = some (v, rest)

theorem ReadsAs.of_cons
    {c : Char} {tail : Text} {v : Json} (hgap : isGap c = false) (harr : c ≠ ']') (hobj : c ≠ '}')
    (h : ∀ depth, tail.length ≤ depth → ∀ rest, Stops rest →
      readValue (depth + 1) (c :: (tail ++ rest)) = some (v, rest)) :
    ReadsAs (c :: tail) v where
  begins := ⟨c, tail, rfl, hgap, harr, hobj⟩
  read := by
    intro depth hdepth rest hrest
    cases depth with
    | zero => simp at hdepth
    | succ depth => exact h depth (Nat.le_of_succ_le_succ hdepth) rest hrest

theorem readsAs_null : ReadsAs (scalar .null).toList .null :=
  .of_cons rfl (by decide) (by decide) fun _ _ _ _ => rfl

theorem readsAs_bool (b : Bool) : ReadsAs (scalar (.bool b)).toList (.bool b) := by
  cases b with
  | true => exact .of_cons rfl (by decide) (by decide) fun _ _ _ _ => rfl
  | false => exact .of_cons rfl (by decide) (by decide) fun _ _ _ _ => rfl

theorem readsAs_str (s : String) : ReadsAs (scalar (.str s)).toList (.str s) := by
  rw [scalar, toList_written]
  refine .of_cons rfl (by decide) (by decide) fun depth _ rest _ => ?_
  rw [List.append_assoc, List.singleton_append]
  simp only [readValue, skipped_cons (show isGap '"' = false from rfl)]
  rw [readString_flatMap]
  rfl

theorem readsAs_int (n : Int) : ReadsAs (scalar (.int n)).toList (.int n) := by
  cases n with
  | ofNat m =>
      have htext : (scalar (.int (Int.ofNat m))).toList = Nat.toDigits 10 m := by
        rw [scalar]
        simp [toString, Int.repr, Nat.repr_eq_ofList_toDigits]
      obtain ⟨c, tail, hdigits⟩ :=
        List.exists_cons_of_ne_nil (Nat.toDigits_ne_nil (n := m) (b := 10))
      have hmem : c ∈ Nat.toDigits 10 m := hdigits ▸ List.mem_cons_self
      have hc := Nat.isDigit_of_mem_toDigits (by omega) (by omega) hmem
      rw [htext, hdigits]
      refine .of_cons (isGap_of_isDigit hc) (ne_of_isDigit hc rfl) (ne_of_isDigit hc rfl)
        fun depth _ rest hrest => ?_
      rw [readValue_of_isDigit hc, readAtom_of_isDigit hc, ← List.cons_append, ← hdigits,
        readNatural_toDigits m hrest]
      rfl
  | negSucc m =>
      have htext : (scalar (.int (Int.negSucc m))).toList = '-' :: Nat.toDigits 10 (m + 1) := by
        rw [scalar]
        simp [toString, Int.repr, Nat.repr_eq_ofList_toDigits]
      rw [htext]
      refine .of_cons rfl (by decide) (by decide) fun depth _ rest hrest => ?_
      show (readNatural _).map _ = _
      rw [readNatural_toDigits (m + 1) hrest]
      rfl

/-! ## Groups -/

/-- The blanks that begin a line at a depth. -/
def margin (depth : ℕ) : Text :=
  '\n' :: List.replicate (2 * depth) ' '

theorem isGap_of_mem_margin {depth : ℕ} {c : Char} (hc : c ∈ margin depth) : isGap c = true := by
  rcases List.mem_cons.mp hc with rfl | hc
  · rfl
  · rw [List.eq_of_mem_replicate hc]
    rfl

theorem skipped_margin_append (depth : ℕ) (text : Text) :
    skipped (margin depth ++ text) = skipped text :=
  skipped_append (fun _ => isGap_of_mem_margin) text

/-- What stands after the opening bracket of a group with its parts on lines of their own. -/
def stackedBody (closing : Char) (depth : ℕ) : List Text → Text
  | [] => [closing]
  | first :: parts =>
    margin (depth + 1) ++ ((',' :: margin (depth + 1)).intercalate (first :: parts)
      ++ (margin depth ++ [closing]))

theorem toList_stacked
    (opening closing : Char) {opened closed : String} (hopened : opened.toList = [opening])
    (hclosed : closed.toList = [closing]) (depth : ℕ) (parts : List String) :
    (stacked opened closed depth parts).toList =
      opening :: stackedBody closing depth (parts.map String.toList) := by
  cases parts with
  | nil => simp [stacked, stackedBody, hopened, hclosed]
  | cons first parts =>
      simp [stacked, stackedBody, margin, String.toList_intercalate, hopened, hclosed]

theorem length_le_length_intercalate
    (separator : Text) {parts : List Text} {part : Text} (hpart : part ∈ parts) :
    part.length ≤ (separator.intercalate parts).length := by
  induction parts with
  | nil => exact absurd hpart List.not_mem_nil
  | cons first parts ih =>
      cases parts with
      | nil =>
          refine Nat.le_of_eq ?_
          rw [List.intercalate_singleton, List.mem_singleton.mp hpart]
      | cons next parts =>
          rw [List.intercalate_cons_cons, List.length_append, List.length_append]
          rcases List.mem_cons.mp hpart with rfl | hpart
          · omega
          · have := ih hpart
            omega

theorem length_le_length_stackedBody
    (closing : Char) (depth : ℕ) {parts : List Text} {part : Text} (hpart : part ∈ parts) :
    part.length ≤ (stackedBody closing depth parts).length := by
  cases parts with
  | nil => exact absurd hpart List.not_mem_nil
  | cons first parts =>
      have hle := length_le_length_intercalate (',' :: margin (depth + 1)) hpart
      simp only [stackedBody, List.length_append]
      omega

/-- A separator of one character or more leaves a place for each part but the first. -/
theorem length_le_length_intercalate_add_one (c : Char) (separator : Text) (parts : List Text) :
    parts.length ≤ ((c :: separator).intercalate parts).length + 1 := by
  induction parts with
  | nil => exact Nat.zero_le _
  | cons first parts ih =>
      cases parts with
      | nil => simp
      | cons next parts =>
          rw [List.intercalate_cons_cons, List.length_append, List.length_append,
            List.length_cons, List.length_cons (a := c)]
          omega

section

variable {α : Type} {part : Text → Option (α × Text)} {closing : Char}

theorem readParts_last
    {a : α} {text after rest : Text} (hpart : part text = some (a, after))
    (hafter : skipped after = closing :: rest) (fuel : ℕ) :
    readParts closing part (fuel + 1) text = some ([a], rest) := by
  simp [readParts, hpart, hafter]

theorem readParts_more
    {a : α} {text after rest : Text} (hcomma : closing ≠ ',') (hpart : part text = some (a, after))
    (hafter : skipped after = ',' :: rest) (fuel : ℕ) :
    readParts closing part (fuel + 1) text =
      (readParts closing part fuel rest).map fun read => (a :: read.1, read.2) := by
  simp only [readParts, hpart, hafter, bind, Option.bind_some, if_neg hcomma.symm, if_pos]
  cases readParts closing part fuel rest <;> rfl

-- The reader of parts skips the margin that a part stands after, and gets each part from its text.
variable (hskip : ∀ depth text, part (margin depth ++ text) = part text)
  (hclosing : closing = ']' ∨ closing = '}') {textOf : α → Text}

include hskip

theorem readParts_margin_append (depth fuel : ℕ) (text : Text) :
    readParts closing part fuel (margin depth ++ text) = readParts closing part fuel text := by
  cases fuel with
  | zero => rfl
  | succ fuel => rw [readParts, readParts, hskip]

include hclosing

theorem readParts_intercalate
    (inner outer : ℕ) (first : α) (items : List α)
    (h : ∀ a ∈ first :: items, ∀ rest, Stops rest → part (textOf a ++ rest) = some (a, rest))
    (fuel : ℕ) (rest : Text) :
    readParts closing part (fuel + items.length + 1)
      ((',' :: margin inner).intercalate ((first :: items).map textOf)
        ++ (margin outer ++ closing :: rest)) =
      some (first :: items, rest) := by
  induction items generalizing first with
  | nil =>
      have hfirst := h first List.mem_cons_self (margin outer ++ closing :: rest)
        (stops_cons rfl _)
      have hend : skipped (closing :: rest) = closing :: rest := by
        rcases hclosing with rfl | rfl <;> rfl
      rw [List.map_cons, List.map_nil, List.intercalate_singleton]
      exact readParts_last hfirst ((skipped_margin_append outer _).trans hend) _
  | cons next items ih =>
      have hfirst := h first List.mem_cons_self
      have hrest := ih next fun a ha => h a (List.mem_cons_of_mem _ ha)
      have hcomma : closing ≠ ',' := by
        rcases hclosing with rfl | rfl <;> decide
      simp only [List.map_cons, List.intercalate_cons_cons, List.append_assoc,
        List.cons_append] at hrest ⊢
      rw [readParts_more hcomma (hfirst _ (stops_cons rfl _)) (skipped_cons rfl _),
        readParts_margin_append hskip, List.length_cons, ← Nat.add_assoc, hrest]
      rfl

/-- The parts of a group are read back. -/
theorem readGroup_stackedBody
    (textOf : α → Text) (depth : ℕ) (items : List α) (hbegins : ∀ a ∈ items, Begins (textOf a))
    (h : ∀ a ∈ items, ∀ rest, Stops rest → part (textOf a ++ rest) = some (a, rest))
    (rest : Text) :
    readGroup closing part (stackedBody closing depth (items.map textOf) ++ rest) =
      some (items, rest) := by
  cases items with
  | nil =>
      rcases hclosing with rfl | rfl <;> rfl
  | cons first items =>
      obtain ⟨c, tail, hfirst, hgap, harr, hobj⟩ := hbegins first List.mem_cons_self
      have hother : c ≠ closing := by
        rcases hclosing with rfl | rfl
        · exact harr
        · exact hobj
      have hread := readParts_intercalate hskip hclosing (depth + 1) depth first items h
      have hcount := length_le_length_intercalate_add_one ',' (margin (depth + 1))
        ((first :: items).map textOf)
      obtain ⟨more, hmore⟩ : ∃ more, (',' :: margin (depth + 1)).intercalate
          ((first :: items).map textOf) = c :: more := by
        rw [List.map_cons, hfirst, List.intercalate_cons_cons_left]
        exact ⟨_, rfl⟩
      rw [hmore] at hread hcount
      have hlength : items.length + 1 ≤
          (margin (depth + 1) ++ c :: (more ++ (margin depth ++ closing :: rest))).length := by
        simp only [List.length_append, List.length_cons, List.length_map] at hcount ⊢
        omega
      obtain ⟨extra, hextra⟩ := Nat.exists_eq_add_of_le' hlength
      rw [List.map_cons, stackedBody, ← List.map_cons, hmore]
      simp only [List.append_assoc, List.cons_append, List.nil_append, readGroup,
        skipped_margin_append, skipped_cons hgap, if_neg hother]
      rw [hextra, readParts_margin_append hskip]
      exact hread extra rest

end

/-! ## Values -/

theorem readValue_append
    {gaps : Text} (hgaps : ∀ c ∈ gaps, isGap c = true) (inside : ℕ) (text : Text) :
    readValue inside (gaps ++ text) = readValue inside text := by
  cases inside with
  | zero => rfl
  | succ inside => rw [readValue, readValue, skipped_append hgaps]

theorem readField_margin_append
    (value : Text → Option (Json × Text)) (depth : ℕ) (text : Text) :
    readField value (margin depth ++ text) = readField value text := by
  rw [readField, readField, skipped_margin_append]

theorem toList_prettyAt_arr (depth : ℕ) (items : List Json) :
    (prettyAt depth (.arr items)).toList =
      '[' :: stackedBody ']' depth (items.map fun v => (prettyAt (depth + 1) v).toList) := by
  have hitems : prettyItems (depth + 1) items = items.map (prettyAt (depth + 1)) := by
    induction items with
    | nil => rfl
    | cons v items ih => rw [prettyItems, ih, List.map_cons]
  rw [prettyAt, hitems, toList_stacked '[' ']' rfl rfl, List.map_map]
  rfl

/-- A field as it is written at a depth. -/
def fieldText (depth : ℕ) (field : String × Json) : Text :=
  '"' :: (field.1.toList.flatMap escapedChar
    ++ '"' :: ':' :: ' ' :: (prettyAt depth field.2).toList)

theorem begins_fieldText (depth : ℕ) (field : String × Json) : Begins (fieldText depth field) :=
  ⟨_, _, rfl, rfl, by decide, by decide⟩

theorem toList_prettyAt_obj (depth : ℕ) (fields : List (String × Json)) :
    (prettyAt depth (.obj fields)).toList =
      '{' :: stackedBody '}' depth (fields.map (fieldText (depth + 1))) := by
  have hfields : (prettyFields (depth + 1) fields).map String.toList =
      fields.map (fieldText (depth + 1)) := by
    induction fields with
    | nil => rfl
    | cons field fields ih =>
        rw [prettyFields, List.map_cons, ih, List.map_cons]
        simp [fieldText, toList_written]
  rw [prettyAt, toList_stacked '{' '}' rfl rfl, hfields]

theorem readsAs_arr
    {depth : ℕ} {items : List Json}
    (h : ∀ v ∈ items, ReadsAs (prettyAt (depth + 1) v).toList v) :
    ReadsAs (prettyAt depth (.arr items)).toList (.arr items) := by
  rw [toList_prettyAt_arr]
  refine .of_cons rfl (by decide) (by decide) fun inside hinside rest _ => ?_
  have hgroup := readGroup_stackedBody
    (fun _ => readValue_append (fun _ => isGap_of_mem_margin) inside) (.inl rfl)
    (fun v => (prettyAt (depth + 1) v).toList) depth items (fun v hv => (h v hv).begins) (by
      intro v hv
      refine (h v hv).read inside (Nat.le_trans ?_ hinside)
      exact length_le_length_stackedBody _ _ (List.mem_map_of_mem hv)) rest
  simp only [readValue, skipped_cons (show isGap '[' = false from rfl), hgroup]
  rfl

theorem readField_fieldText
    {depth : ℕ} {field : String × Json}
    (h : ReadsAs (prettyAt depth field.2).toList field.2) {inside : ℕ}
    (hinside : (fieldText depth field).length ≤ inside) {rest : Text} (hrest : Stops rest) :
    readField (readValue inside) (fieldText depth field ++ rest) = some (field, rest) := by
  have hlength : (prettyAt depth field.2).toList.length ≤ inside := by
    simp only [fieldText, List.length_append, List.length_cons] at hinside
    omega
  have hvalue := h.read inside hlength rest hrest
  have hgap : readValue inside (' ' :: ((prettyAt depth field.2).toList ++ rest)) =
      some (field.2, rest) :=
    (@readValue_append [' '] (by simp [isGap]) inside _).trans hvalue
  simp only [fieldText, readField, List.cons_append, List.append_assoc,
    skipped_cons (show isGap '"' = false from rfl)]
  rw [readString_flatMap]
  simp only [bind, Option.bind_some, skipped_cons (show isGap ':' = false from rfl), hgap]
  rfl

theorem readsAs_obj
    {depth : ℕ} {fields : List (String × Json)}
    (h : ∀ field ∈ fields, ReadsAs (prettyAt (depth + 1) field.2).toList field.2) :
    ReadsAs (prettyAt depth (.obj fields)).toList (.obj fields) := by
  rw [toList_prettyAt_obj]
  refine .of_cons rfl (by decide) (by decide) fun inside hinside rest _ => ?_
  have hgroup := readGroup_stackedBody (readField_margin_append (readValue inside)) (.inr rfl)
    (fieldText (depth + 1)) depth fields (fun field _ => begins_fieldText _ field) (by
      intro field hfield rest hrest
      refine readField_fieldText (h field hfield) (Nat.le_trans ?_ hinside) hrest
      exact length_le_length_stackedBody _ _ (List.mem_map_of_mem hfield)) rest
  simp only [readValue, skipped_cons (show isGap '{' = false from rfl), hgroup]
  rfl

/-- A value without fractions and exponents. -/
inductive Plain : Json → Prop
  | null : Plain .null
  | bool (b : Bool) : Plain (.bool b)
  | int (n : Int) : Plain (.int n)
  | str (s : String) : Plain (.str s)
  | arr {items : List Json} (h : ∀ v ∈ items, Plain v) : Plain (.arr items)
  | obj {fields : List (String × Json)} (h : ∀ field ∈ fields, Plain field.2) :
    Plain (.obj fields)

theorem Plain.strings (ss : List String) : Plain (Json.strings ss) := by
  refine .arr fun v hv => ?_
  obtain ⟨s, -, rfl⟩ := List.mem_map.mp hv
  exact .str s

theorem Plain.readsAs {v : Json} (h : Plain v) (depth : ℕ) :
    ReadsAs (prettyAt depth v).toList v := by
  induction h generalizing depth with
  | null => exact readsAs_null
  | bool b => exact readsAs_bool b
  | int n => exact readsAs_int n
  | str s => exact readsAs_str s
  | arr _ ih => exact readsAs_arr fun v hv => ih v hv (depth + 1)
  | obj _ ih => exact readsAs_obj fun field hfield => ih field hfield (depth + 1)

/-- A written value is read back, also with a line end after it. -/
theorem Plain.read?_pretty {v : Json} (h : Plain v) : read? (v.pretty ++ "\n") = some v := by
  have hread := (h.readsAs 0).read (v.pretty ++ "\n").toList.length (by simp [pretty]) ['\n']
    (stops_cons rfl _)
  rw [read?, show (v.pretty ++ "\n").toList = (prettyAt 0 v).toList ++ ['\n'] by simp [pretty]]
    at *
  rw [hread]
  rfl

example : read? " [ 1,-20 ,null, \"\\u00e9\\/\\ud83d\\ude00\" ]" =
    some (.arr [.int 1, .int (-20), .null, .str "é/😀"]) := by
  rfl

end Json
end Reindent
