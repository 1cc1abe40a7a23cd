import Mathlib.Data.List.Basic
import Reindent.Json.Basic

/-!
# Reading JSON

A reader of JSON values, to say what a program makes of a written value.  It skips blanks between
the parts, joins the two halves of a character beyond the basic plane, and takes a whole text for
one value only if nothing but blanks follows.  Fractions and exponents are not read.

A written string is read back as it was, whatever its characters are.
-/

namespace Reindent
namespace Json

/-! ## Strings -/

/-- The value of a hexadecimal digit. -/
def hexValue? (c : Char) : Option ℕ :=
  if '0' ≤ c ∧ c ≤ '9' then some (c.toNat - '0'.toNat)
  else if 'a' ≤ c ∧ c ≤ 'f' then some (c.toNat - 'a'.toNat + 10)
  else if 'A' ≤ c ∧ c ≤ 'F' then some (c.toNat - 'A'.toNat + 10)
  else none

/-- The number that hexadecimal digits stand for, after a number that was read before them. -/
def hexNumber? : ℕ → Text → Option ℕ
  | n, [] => some n
  | n, c :: rest => (hexValue? c).bind fun d => hexNumber? (16 * n + d) rest

/-- The character that a backslash and a letter stand for. -/
def unescaped? : Char → Option Char
  | '"' => some '"'
  | '\\' => some '\\'
  | '/' => some '/'
  | 'b' => some '\x08'
  | 'f' => some '\x0c'
  | 'n' => some '\n'
  | 'r' => some '\r'
  | 't' => some '\t'
  | _ => none

/-- The code units up to the closing quote, and what follows it. -/
def readUnits : Text → Option (List ℕ × Text)
  | '"' :: rest => some ([], rest)
  | '\\' :: 'u' :: a :: b :: c :: d :: rest => do
    let unit ← hexNumber? 0 [a, b, c, d]
    let (units, rest) ← readUnits rest
    return (unit :: units, rest)
  | '\\' :: letter :: rest => do
    let c ← unescaped? letter
    let (units, rest) ← readUnits rest
    return (c.toNat :: units, rest)
  | c :: rest => do
    if c.toNat < 0x20 || c = '\\' then none
    let (units, rest) ← readUnits rest
    return (c.toNat :: units, rest)
  | [] => none

def isHighHalf (unit : ℕ) : Bool :=
  decide (0xD800 ≤ unit) && decide (unit < 0xDC00)

def isLowHalf (unit : ℕ) : Bool :=
  decide (0xDC00 ≤ unit) && decide (unit < 0xE000)

/-- The character of a code unit that is not a half. -/
def charOf? (unit : ℕ) : Option Char :=
  if unit.isValidChar then some (Char.ofNat unit) else none

/-- The characters of code units; a half has to meet its other half. -/
def joinedUnits? : List ℕ → Option Text
  | [] => some []
  | [unit] => (charOf? unit).map ([·])
  | unit :: next :: rest =>
    if isHighHalf unit && isLowHalf next then
      (joinedUnits? rest).map
        (Char.ofNat (0x10000 + (unit - 0xD800) * 0x400 + (next - 0xDC00)) :: ·)
    else (charOf? unit).bind fun c => (joinedUnits? (next :: rest)).map (c :: ·)

/-- The string up to its closing quote, and what follows it. -/
def readString (text : Text) : Option (String × Text) := do
  let (units, rest) ← readUnits text
  return (String.ofList (← joinedUnits? units), rest)

/-! ## Values -/

def isGap (c : Char) : Bool :=
  c = ' ' || c = '\n' || c = '\r' || c = '\t'

def skipped (text : Text) : Text :=
  text.dropWhile isGap

/-- A whole number without leading zeros, and what follows its last digit. -/
def readNatural (text : Text) : Option (ℕ × Text) :=
  let digits := text.takeWhile Char.isDigit
  if digits = [] || (digits.head? = some '0' && digits ≠ ['0']) then none
  else some (Nat.ofDigitChars 10 digits 0, text.dropWhile Char.isDigit)

/-- A value without parts other than a string. -/
def readAtom : Text → Option (Json × Text)
  | 'n' :: 'u' :: 'l' :: 'l' :: rest => some (.null, rest)
  | 't' :: 'r' :: 'u' :: 'e' :: rest => some (.bool true, rest)
  | 'f' :: 'a' :: 'l' :: 's' :: 'e' :: rest => some (.bool false, rest)
  | '-' :: rest => (readNatural rest).map fun (n, rest) => (.int (-n), rest)
  | text => (readNatural text).map fun (n, rest) => (.int n, rest)

section

variable {α : Type}

/-- One part or more up to a closing bracket, with commas between them. -/
def readParts (closing : Char) (part : Text → Option (α × Text)) :
    ℕ → Text → Option (List α × Text)
  | 0, _ => none
  | fuel + 1, text => do
    let (first, rest) ← part text
    match skipped rest with
    | [] => none
    | c :: rest =>
      if c = closing then some ([first], rest)
      else if c = ',' then
        let (parts, rest) ← readParts closing part fuel rest
        return (first :: parts, rest)
      else none

/-- The parts up to a closing bracket, with commas between them. -/
def readGroup (closing : Char) (part : Text → Option (α × Text)) (text : Text) :
    Option (List α × Text) :=
  match skipped text with
  | [] => none
  | c :: rest =>
    if c = closing then some ([], rest) else readParts closing part text.length text

end

/-- A field of an object. -/
def readField (value : Text → Option (Json × Text)) (text : Text) :
    Option ((String × Json) × Text) :=
  match skipped text with
  | '"' :: rest => do
    let (key, rest) ← readString rest
    match skipped rest with
    | ':' :: rest => (value rest).map fun (v, rest) => ((key, v), rest)
    | _ => none
  | _ => none

/-- A value that is at most so many levels deep, and what follows it. -/
def readValue : ℕ → Text → Option (Json × Text)
  | 0, _ => none
  | depth + 1, text =>
    match skipped text with
    | '"' :: rest => (readString rest).map fun (s, rest) => (.str s, rest)
    | '[' :: rest => (readGroup ']' (readValue depth) rest).map fun (vs, rest) => (.arr vs, rest)
    | '{' :: rest =>
      (readGroup '}' (readField (readValue depth)) rest).map fun (fs, rest) => (.obj fs, rest)
    | other => readAtom other

/-- The value that a text as a whole stands for. -/
def read? (s : String) : Option Json :=
  match readValue s.toList.length s.toList with
  | some (v, rest) => if skipped rest = [] then some v else none
  | none => none

/-! ## Reading strings back -/

/-- The code units of a character. -/
def unitsOf (c : Char) : List ℕ :=
  if c.toNat < 0x10000 then [c.toNat]
  else [0xD800 + (c.toNat - 0x10000) / 0x400, 0xDC00 + (c.toNat - 0x10000) % 0x400]

theorem hexValue?_digitChar : ∀ d < 16, hexValue? (Nat.digitChar d) = some d := by
  decide

theorem hexNumber?_append (n : ℕ) (front back : Text) :
    hexNumber? n (front ++ back) = (hexNumber? n front).bind fun m => hexNumber? m back := by
  induction front generalizing n with
  | nil => rfl
  | cons c front ih => simp [hexNumber?, ih, Option.bind_assoc]

theorem hexNumber?_replicate_zero (k : ℕ) :
    hexNumber? 0 (List.replicate k '0') = some 0 := by
  induction k with
  | zero => rfl
  | succ k ih => exact ih

theorem hexNumber?_toDigits (n : ℕ) : hexNumber? 0 (Nat.toDigits 16 n) = some n := by
  induction n using Nat.strongRecOn with
  | _ n ih =>
    rw [Nat.toDigits_eq_if (by omega)]
    split
    · next hn => simp [hexNumber?, hexValue?_digitChar n hn]
    · next hn =>
      rw [hexNumber?_append, ih (n / 16) (by omega)]
      simp [hexNumber?, hexValue?_digitChar (n % 16) (by omega), Nat.div_add_mod]

/-- A code unit takes four digits, and these are read back. -/
theorem exists_hex_four {n : ℕ} (hn : n < 0x10000) :
    ∃ a b c d, Text.hex 4 n = [a, b, c, d] ∧ hexNumber? 0 [a, b, c, d] = some n := by
  have hlength : (Text.hex 4 n).length = 4 := by
    have hle : (Nat.toDigits 16 n).length ≤ 4 :=
      (Nat.length_toDigits_le_iff (by omega) (by omega)).mpr hn
    rw [Text.hex, List.length_append, List.length_replicate]
    omega
  have hvalue : hexNumber? 0 (Text.hex 4 n) = some n := by
    rw [Text.hex, hexNumber?_append, hexNumber?_replicate_zero]
    exact hexNumber?_toDigits n
  match Text.hex 4 n, hlength, hvalue with
  | [a, b, c, d], _, hvalue => exact ⟨a, b, c, d, rfl, hvalue⟩

/-- Put units before those that are read from a text. -/
def withUnits (units : List ℕ) : Option (List ℕ × Text) → Option (List ℕ × Text) :=
  Option.map fun read => (units ++ read.1, read.2)

theorem readUnits_escapedUnit
    {n : ℕ} (hn : n < 0x10000) (text : Text) :
    readUnits (escapedUnit n ++ text) = withUnits [n] (readUnits text) := by
  obtain ⟨a, b, c, d, hdigits, hvalue⟩ := exists_hex_four hn
  rw [escapedUnit, hdigits]
  simp only [List.cons_append, List.nil_append, readUnits, hvalue]
  cases readUnits text <;> rfl

theorem readUnits_escape
    {letter c : Char} (hletter : unescaped? letter = some c) (hplain : letter ≠ 'u')
    (text : Text) :
    readUnits ('\\' :: letter :: text) = withUnits [c.toNat] (readUnits text) := by
  rw [readUnits]
  · rw [hletter]
    cases readUnits text <;> rfl
  · rintro - - - - - rfl
    exact absurd rfl hplain

theorem readUnits_plain
    {c : Char} (hquote : c ≠ '"') (hslash : c ≠ '\\') (hseen : 0x20 ≤ c.toNat) (text : Text) :
    readUnits (c :: text) = withUnits [c.toNat] (readUnits text) := by
  rw [readUnits]
  · have hgo : (decide (c.toNat < 0x20) || decide (c = '\\')) = false := by
      simp [hslash, hseen]
    rw [hgo]
    cases readUnits text <;> rfl
  · exact hquote
  · exact fun _ _ _ _ _ hc => absurd hc hslash
  · exact fun _ _ hc => absurd hc hslash

theorem toNat_valid (c : Char) :
    c.toNat < 0xD800 ∨ 0xDFFF < c.toNat ∧ c.toNat < 0x110000 :=
  c.valid

theorem unitsOf_of_lt {c : Char} (hc : c.toNat < 0x10000) : unitsOf c = [c.toNat] :=
  if_pos hc

theorem readUnits_escapedChar (c : Char) (text : Text) :
    readUnits (escapedChar c ++ text) = withUnits (unitsOf c) (readUnits text) := by
  unfold escapedChar
  split
  · next hc =>
    rcases (by simpa using hc : c = '"' ∨ c = '\\') with rfl | rfl
    · exact readUnits_escape rfl (by decide) text
    · exact readUnits_escape rfl (by decide) text
  next hmarks =>
  obtain ⟨hquote, hslash⟩ : c ≠ '"' ∧ c ≠ '\\' := by simpa using hmarks
  split
  · next hc => subst hc; exact readUnits_escape rfl (by decide) text
  split
  · next hc => subst hc; exact readUnits_escape rfl (by decide) text
  split
  · next hc => subst hc; exact readUnits_escape rfl (by decide) text
  split
  · next hc => subst hc; exact readUnits_escape rfl (by decide) text
  split
  · next hc => subst hc; exact readUnits_escape rfl (by decide) text
  split
  · next hc =>
    obtain ⟨hlow, hhigh⟩ : 0x20 ≤ c.toNat ∧ c.toNat ≤ 0x7E := by simpa using hc
    rw [unitsOf_of_lt (by omega)]
    exact readUnits_plain hquote hslash hlow text
  split
  · next hc =>
    rw [unitsOf_of_lt hc]
    exact readUnits_escapedUnit hc text
  · next hc =>
    have hvalid := toNat_valid c
    rw [unitsOf, if_neg hc]
    dsimp only
    rw [List.append_assoc, readUnits_escapedUnit (by omega), readUnits_escapedUnit (by omega)]
    cases readUnits text <;> rfl

theorem readUnits_flatMap (s : Text) (text : Text) :
    readUnits (s.flatMap escapedChar ++ '"' :: text) = some (s.flatMap unitsOf, text) := by
  induction s with
  | nil => rfl
  | cons c s ih =>
      rw [List.flatMap_cons, List.append_assoc, readUnits_escapedChar, ih]
      rfl

theorem charOf?_toNat (c : Char) : charOf? c.toNat = some c := by
  rw [charOf?, if_pos (show c.toNat.isValidChar from c.valid)]
  exact congrArg some (Char.ofNat_toNat c)

/-- A character of one unit is no half of another. -/
theorem isHighHalf_toNat (c : Char) : isHighHalf c.toNat = false := by
  have hvalid := toNat_valid c
  simp only [isHighHalf, Bool.and_eq_false_iff, decide_eq_false_iff_not]
  omega

theorem joinedUnits?_unitsOf_append (c : Char) (units : List ℕ) :
    joinedUnits? (unitsOf c ++ units) = (joinedUnits? units).map (c :: ·) := by
  rw [unitsOf]
  split
  · cases units with
    | nil => simp [joinedUnits?, charOf?_toNat]
    | cons next rest => simp [joinedUnits?, isHighHalf_toNat, charOf?_toNat]
  · next hc =>
    have hvalid := toNat_valid c
    have hhalves : (isHighHalf (0xD800 + (c.toNat - 0x10000) / 0x400)
        && isLowHalf (0xDC00 + (c.toNat - 0x10000) % 0x400)) = true := by
      simp only [isHighHalf, isLowHalf, Bool.and_eq_true, decide_eq_true_eq]
      omega
    have hwhole : 0x10000 + (0xD800 + (c.toNat - 0x10000) / 0x400 - 0xD800) * 0x400
        + (0xDC00 + (c.toNat - 0x10000) % 0x400 - 0xDC00) = c.toNat := by
      omega
    simp only [List.cons_append, List.nil_append, joinedUnits?]
    rw [if_pos hhalves, hwhole, Char.ofNat_toNat]

theorem joinedUnits?_flatMap (s : Text) : joinedUnits? (s.flatMap unitsOf) = some s := by
  induction s with
  | nil => rfl
  | cons c s ih => rw [List.flatMap_cons, joinedUnits?_unitsOf_append, ih]; rfl

theorem readString_flatMap (s : String) (text : Text) :
    readString (s.toList.flatMap escapedChar ++ '"' :: text) = some (s, text) := by
  simp [readString, readUnits_flatMap, joinedUnits?_flatMap]

theorem toList_written (s : String) :
    (written s).toList = '"' :: (s.toList.flatMap escapedChar ++ ['"']) := by
  simp [written]

end Json
end Reindent
