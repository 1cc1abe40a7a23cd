import Reindent.Text.Integer
import Reindent.Toml.Value

/-!
# Reading TOML scalars

Strings, numbers, dates and times at the front of a text.  A reader gives what it has read and the
rest of the text; it gives nothing when the text starts with something else.
-/

namespace Reindent
namespace Toml

def isLineBlank (c : Char) : Bool :=
  c = ' ' || c = '\t'

/-- The control characters that a comment or a string on one line must not have. -/
def isForbidden (c : Char) : Bool :=
  (decide (c.toNat < 0x20) || c = '\x7f') && c ≠ '\t'

/-- The control characters that a string over several lines must not have. -/
def isForbiddenInBlock (c : Char) : Bool :=
  isForbidden c && c ≠ '\n'

/-! ## Strings -/

def hexValue? (c : Char) : Option Nat :=
  if '0' ≤ c && c ≤ '9' then some (c.toNat - '0'.toNat)
  else if 'a' ≤ c && c ≤ 'f' then some (c.toNat - 'a'.toNat + 10)
  else if 'A' ≤ c && c ≤ 'F' then some (c.toNat - 'A'.toNat + 10)
  else none

/-- The character whose number the first `count` hexadecimal digits of a text give. -/
def hexChar? (count : Nat) (t : Text) : Option Char := do
  let digits ← (t.take count).mapM hexValue?
  let n := digits.foldl (fun n d => 16 * n + d) 0
  if digits.length = count && n.isValidChar then some (Char.ofNat n) else none

/-- An escape, after its backslash: the text it stands for and how many characters it takes.  Over
several lines, a backslash at the end of a line takes the break and all blanks after it. -/
def escape? (block : Bool) : Text → Option (Text × Nat)
  | [] => none
  | c :: rest =>
    if block && (isLineBlank c || c = '\n') then
      let blanks := (c :: rest).takeWhile isLineBlank
      match (c :: rest).dropWhile isLineBlank with
      | '\n' :: after =>
        some ([], blanks.length + 1 + (after.takeWhile fun d => isLineBlank d || d = '\n').length)
      | _ => none
    else
      match c with
      | 'u' => (hexChar? 4 rest).map fun d => ([d], 5)
      | 'U' => (hexChar? 8 rest).map fun d => ([d], 9)
      | 'b' => some (['\x08'], 1)
      | 't' => some (['\t'], 1)
      | 'n' => some (['\n'], 1)
      | 'f' => some (['\x0c'], 1)
      | 'r' => some (['\r'], 1)
      | '"' => some (['"'], 1)
      | '\\' => some (['\\'], 1)
      | _ => none

/-- What has been read with more text in front of it. -/
def withFront (front : Text) (read : Except Error (Text × Text)) : Except Error (Text × Text) :=
  read.map fun r => (front ++ r.1, r.2)

/-- The rest of a string with escapes, after passing over `skip` characters. -/
def basicBody (block : Bool) : Nat → Text → Except Error (Text × Text)
  | _, [] => .error .malformed
  | skip + 1, _ :: rest => basicBody block skip rest
  | 0, c :: rest =>
    if c = '"' then
      if !block then .ok ([], rest)
      else if ['"', '"'].isPrefixOf rest then .ok ([], rest.drop 2)
      else withFront ['"'] (basicBody block 0 rest)
    else if c = '\\' then
      match escape? block rest with
      | none => .error .malformed
      | some (out, size) => withFront out (basicBody block size rest)
    else if (if block then isForbiddenInBlock c else isForbidden c) then .error .malformed
    else withFront [c] (basicBody block 0 rest)

/-- The rest of a string without escapes on one line. -/
def literalBody (t : Text) : Except Error (Text × Text) :=
  let body := t.takeWhile (· ≠ '\'')
  match t.dropWhile (· ≠ '\'') with
  | [] => .error .malformed
  | _ :: rest => if body.any isForbidden then .error .malformed else .ok (body, rest)

/-- The rest of a string without escapes over several lines. -/
def literalBlockBody : Text → Except Error (Text × Text)
  | [] => .error .malformed
  | c :: rest =>
    if ['\'', '\'', '\''].isPrefixOf (c :: rest) then .ok ([], rest.drop 2)
    else if isForbiddenInBlock c then .error .malformed
    else withFront [c] (literalBlockBody rest)

/-- Up to two more quotes after the end of a string over several lines belong to it. -/
def extraQuotes (quote : Char) (body rest : Text) : Text × Text :=
  if [quote, quote].isPrefixOf rest then (body ++ [quote, quote], rest.drop 2)
  else if [quote].isPrefixOf rest then (body ++ [quote], rest.drop 1)
  else (body, rest)

def dropBreak : Text → Text
  | '\n' :: rest => rest
  | other => other

def string? (t : Text) : Option (Except Error (Text × Text)) :=
  match t with
  | '"' :: '"' :: '"' :: rest =>
    some ((basicBody true 0 (dropBreak rest)).map fun r => extraQuotes '"' r.1 r.2)
  | '"' :: rest => some (basicBody false 0 rest)
  | '\'' :: '\'' :: '\'' :: rest =>
    some ((literalBlockBody (dropBreak rest)).map fun r => extraQuotes '\'' r.1 r.2)
  | '\'' :: rest => some (literalBody rest)
  | _ => none

/-! ## Dates and times -/

/-- The number that the first `count` characters give, all of them digits. -/
def digits? (count : Nat) (t : Text) : Option (Nat × Text) :=
  let front := t.take count
  if front.length = count && front.all Char.isDigit then
    some (Text.ofDigits (front.map fun c => c.toNat - '0'.toNat), t.drop count)
  else none

/-- The rest of a text after one given character. -/
def expect? (c : Char) : Text → Option Text
  | [] => none
  | d :: rest => if d = c then some rest else none

/-- Two digits that give a number between two bounds. -/
def between? (low high : Nat) (t : Text) : Option (Nat × Text) := do
  let (n, rest) ← digits? 2 t
  if low ≤ n && n ≤ high then some (n, rest) else none

def daysIn (year month : Nat) : Nat :=
  if month = 2 then
    if year % 4 = 0 && (year % 100 ≠ 0 || year % 400 = 0) then 29 else 28
  else if [4, 6, 9, 11].contains month then 30
  else 31

/-- A date, and whether the calendar has it. -/
def date? (t : Text) : Option (Bool × Text) := do
  let (year, rest) ← digits? 4 t
  let (month, rest) ← between? 1 12 (← expect? '-' rest)
  let (day, rest) ← between? 1 31 (← expect? '-' rest)
  return (decide (1 ≤ year) && decide (day ≤ daysIn year month), rest)

/-- A fraction of a second, if there is one. -/
def dropFraction : Text → Text
  | '.' :: d :: rest => if d.isDigit then rest.dropWhile Char.isDigit else '.' :: d :: rest
  | other => other

/-- The rest of a text after a time. -/
def time? (t : Text) : Option Text := do
  let (_, rest) ← between? 0 23 t
  let (_, rest) ← between? 0 59 (← expect? ':' rest)
  let (_, rest) ← between? 0 59 (← expect? ':' rest)
  return dropFraction rest

/-- The rest of a text after the distance to universal time. -/
def offset? : Text → Option Text
  | c :: rest =>
    if c = 'Z' || c = 'z' then some rest
    else if c = '+' || c = '-' then do
      let (_, rest) ← between? 0 23 rest
      let (_, rest) ← between? 0 59 (← expect? ':' rest)
      return rest
    else none
  | [] => none

/-- The rest of a text after the time that may follow a date. -/
def dropTime : Text → Text
  | c :: rest =>
    if c = 'T' || c = 't' || c = ' ' then
      match time? rest with
      | some after => (offset? after).getD after
      | none => c :: rest
    else c :: rest
  | [] => []

/-- What a text loses to give a rest of it. -/
def readPart (t rest : Text) : String :=
  String.ofList (t.take (t.length - rest.length))

/-- The date or the time at the front of a text. -/
def moment? (t : Text) : Option (Except Error (Value × Text)) :=
  match date? t with
  | some (true, rest) =>
    let after := dropTime rest
    some (.ok (.moment (readPart t after), after))
  | some (false, _) => some (.error .malformed)
  | none => (time? t).map fun rest => .ok (.moment (readPart t rest), rest)

/-! ## Numbers -/

/-- Digits with single underscores between them, after a first digit: the digits and the rest. -/
def moreDigits (isDigit : Char → Bool) : Text → Text × Text
  | '_' :: c :: rest =>
    if isDigit c then
      let (ds, after) := moreDigits isDigit rest
      (c :: ds, after)
    else ([], '_' :: c :: rest)
  | c :: rest =>
    if isDigit c then
      let (ds, after) := moreDigits isDigit rest
      (c :: ds, after)
    else ([], c :: rest)
  | [] => ([], [])

/-- Digits with single underscores between them. -/
def groupedDigits? (isDigit : Char → Bool) : Text → Option (Text × Text)
  | c :: rest =>
    if isDigit c then
      let (ds, after) := moreDigits isDigit rest
      some (c :: ds, after)
    else none
  | [] => none

def ofHexDigits (base : Nat) (digits : Text) : Nat :=
  digits.foldl (fun n c => base * n + (hexValue? c).getD 0) 0

/-- A whole number in hexadecimal, binary or octal digits. -/
def basedNumber? : Text → Option (Value × Text)
  | '0' :: 'x' :: rest =>
    (groupedDigits? (fun c => (hexValue? c).isSome) rest).map fun (ds, after) =>
      (.integer (ofHexDigits 16 ds), after)
  | '0' :: 'b' :: rest =>
    (groupedDigits? (fun c => c = '0' || c = '1') rest).map fun (ds, after) =>
      (.integer (ofHexDigits 2 ds), after)
  | '0' :: 'o' :: rest =>
    (groupedDigits? (fun c => '0' ≤ c && c ≤ '7') rest).map fun (ds, after) =>
      (.integer (ofHexDigits 8 ds), after)
  | _ => none

/-- The digits before a point: a single zero, or digits that do not start with one. -/
def wholeDigits? : Text → Option (Text × Text)
  | '0' :: rest => some (['0'], rest)
  | t => groupedDigits? Char.isDigit t

/-- The rest of a text after the digits behind a point, if there are any. -/
def dropDecimals : Text → Text
  | '.' :: rest =>
    match groupedDigits? Char.isDigit rest with
    | some (_, after) => after
    | none => '.' :: rest
  | other => other

def dropSign : Text → Text
  | '+' :: rest => rest
  | '-' :: rest => rest
  | other => other

/-- The rest of a text after an exponent, if there is one. -/
def dropExponent : Text → Text
  | c :: rest =>
    if c = 'e' || c = 'E' then
      match groupedDigits? Char.isDigit (dropSign rest) with
      | some (_, after) => after
      | none => c :: rest
    else c :: rest
  | [] => []

/-- A number in decimal digits.  Decimals or an exponent make it a float. -/
def decimalNumber? (t : Text) : Option (Except Error (Value × Text)) :=
  match wholeDigits? (dropSign t) with
  | none => none
  | some (digits, rest) =>
    let after := dropExponent (dropDecimals rest)
    if after.length < rest.length then some (.ok (.float (readPart t after), after))
    else if Text.digitLimit < digits.length then some (.error (.numberTooLong digits.length))
    else
      let size : Int := ofHexDigits 10 digits
      some (.ok (.integer (if ['-'].isPrefixOf t then -size else size), rest))

/-- The floats that are written as words. -/
def floatWords : List Text :=
  ["inf", "nan", "-inf", "+inf", "-nan", "+nan"].map String.toList

/-- The scalar at the front of a text. -/
def scalar (t : Text) : Except Error (Value × Text) :=
  match string? t with
  | some read => read.map fun r => (.string (String.ofList r.1), r.2)
  | none =>
    if "true".toList.isPrefixOf t then .ok (.boolean true, t.drop 4)
    else if "false".toList.isPrefixOf t then .ok (.boolean false, t.drop 5)
    else
      match moment? t with
      | some read => read
      | none =>
        match basedNumber? t with
        | some found => .ok found
        | none =>
          match decimalNumber? t with
          | some read => read
          | none =>
            match floatWords.find? (·.isPrefixOf t) with
            | some word => .ok (.float (String.ofList word), t.drop word.length)
            | none => .error .malformed

end Toml
end Reindent
