import Reindent.Text.Quoted
import Reindent.Decimal.Shortest

/-!
# JSON values

The values that commands and tools report, and their two written forms: on one line, and with
every item and field on a line of its own.  Fields keep the order in which they were given.  Texts
are written in ASCII alone.
-/

namespace Reindent

/-- A value to be reported. -/
inductive Json where
  | null
  | bool (b : Bool)
  | int (n : Int)
  | real (x : Float)
  | str (s : String)
  | arr (items : List Json)
  | obj (fields : List (String × Json))

namespace Json

def strings (ss : List String) : Json :=
  .arr (ss.map .str)

/-- One unit of sixteen bits as an escape. -/
def escapedUnit (n : Nat) : Text :=
  '\\' :: 'u' :: Text.hex 4 n

/-- A character of a written text.  Characters beyond the basic plane take two escapes. -/
def escapedChar (c : Char) : Text :=
  if c = '"' || c = '\\' then ['\\', c]
  else if c = '\n' then ['\\', 'n']
  else if c = '\r' then ['\\', 'r']
  else if c = '\t' then ['\\', 't']
  else if c = '\x08' then ['\\', 'b']
  else if c = '\x0c' then ['\\', 'f']
  else if 0x20 ≤ c.toNat && c.toNat ≤ 0x7E then [c]
  else if c.toNat < 0x10000 then escapedUnit c.toNat
  else
    let beyond := c.toNat - 0x10000
    escapedUnit (0xD800 + beyond / 0x400) ++ escapedUnit (0xDC00 + beyond % 0x400)

/-- A text between double quotes. -/
def written (s : String) : String :=
  String.ofList ('"' :: s.toList.flatMap escapedChar ++ ['"'])

/-- The written form of a value without parts. -/
def scalar : Json → String
  | .null => "null"
  | .bool true => "true"
  | .bool false => "false"
  | .int n => toString n
  | .real x => Decimal.shortest x
  | .str s => written s
  | .arr _ => ""
  | .obj _ => ""

mutual

/-- A value on one line. -/
def compact : Json → String
  | .arr items => "[" ++ ", ".intercalate (compactItems items) ++ "]"
  | .obj fields => "\x7b" ++ ", ".intercalate (compactFields fields) ++ "\x7d"
  | .null => scalar .null
  | .bool b => scalar (.bool b)
  | .int n => scalar (.int n)
  | .real x => scalar (.real x)
  | .str s => scalar (.str s)

def compactItems : List Json → List String
  | [] => []
  | v :: rest => compact v :: compactItems rest

def compactFields : List (String × Json) → List String
  | [] => []
  | (key, v) :: rest => (written key ++ ": " ++ compact v) :: compactFields rest

end

/-- Parts between brackets, each on a line of its own at the given depth; no parts take no lines. -/
def stacked (opening closing : String) (depth : Nat) : List String → String
  | [] => opening ++ closing
  | parts =>
    let margin (levels : Nat) := "\n" ++ String.ofList (List.replicate (2 * levels) ' ')
    opening ++ margin (depth + 1) ++ ("," ++ margin (depth + 1)).intercalate parts ++ margin depth
      ++ closing

mutual

/-- A value at a depth, with its parts on lines of their own. -/
def prettyAt (depth : Nat) : Json → String
  | .arr items => stacked "[" "]" depth (prettyItems (depth + 1) items)
  | .obj fields => stacked "\x7b" "\x7d" depth (prettyFields (depth + 1) fields)
  | .null => scalar .null
  | .bool b => scalar (.bool b)
  | .int n => scalar (.int n)
  | .real x => scalar (.real x)
  | .str s => scalar (.str s)

def prettyItems (depth : Nat) : List Json → List String
  | [] => []
  | v :: rest => prettyAt depth v :: prettyItems depth rest

def prettyFields (depth : Nat) : List (String × Json) → List String
  | [] => []
  | (key, v) :: rest => (written key ++ ": " ++ prettyAt depth v) :: prettyFields depth rest

end

/-- A value with its parts on lines of their own, two spaces deeper at each level. -/
def pretty (v : Json) : String :=
  prettyAt 0 v

end Json
end Reindent
