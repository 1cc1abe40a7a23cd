import Reindent.Text.Quoted

/-!
# TOML values

The values of a settings file.  Tables keep their fields in the order in which they were set.
Floats and moments in time are kept as they were written, since no setting is one.
-/

namespace Reindent
namespace Toml

inductive Value where
  | string (s : String)
  | integer (n : Int)
  | float (written : String)
  | boolean (b : Bool)
  | moment (written : String)
  | array (items : List Value)
  | table (fields : List (String × Value))

/-- A table, as the list of its fields. -/
abbrev Table := List (String × Value)

/-- The names that lead to a value. -/
abbrev Key := List String

/-- A key that is used against an earlier use of it. -/
inductive Conflict where
  /-- A table is declared a second time. -/
  | declaredTwice (key : Key)
  /-- Something is put into a value that is closed. -/
  | closed (key : Key)
  /-- A dotted key passes through a table that is declared elsewhere. -/
  | redefined (key : Key)
  /-- A field of a table on one line is set a second time. -/
  | fieldTwice (name : String)
  deriving DecidableEq, Repr

/-- A key as it is shown: its names in parentheses, with a comma after a single one. -/
def Key.shown : Key → String
  | [name] => "(" ++ Text.quotedString name ++ ",)"
  | names => "(" ++ ", ".intercalate (names.map Text.quotedString) ++ ")"

def Conflict.message : Conflict → String
  | .declaredTwice key => "Cannot declare " ++ key.shown ++ " twice"
  | .closed key => "Cannot mutate immutable namespace " ++ key.shown
  | .redefined key => "Cannot redefine namespace " ++ key.shown
  | .fieldTwice name => "Duplicate inline table key " ++ Text.quotedString name

/-- Why a text is no settings file. -/
inductive Error where
  /-- The text breaks the grammar, or sets a value that is set already. -/
  | malformed
  | conflict (cause : Conflict)
  | numberTooLong (digits : Nat)
  /-- Values are nested too deep. -/
  | tooDeep
  deriving DecidableEq, Repr

namespace Table

/-- A table with the value of a field exchanged. -/
def replace (fields : Table) (name : String) (v : Value) : Table :=
  fields.map fun field => if field.1 = name then (name, v) else field

/-- A table with a new field; there is none when the name is taken. -/
def insert? (name : String) (v : Value) (fields : Table) : Option Table :=
  if (fields.lookup name).isSome then none else some (fields ++ [(name, v)])

/-- A table with a change made to the table that a key leads to.  Missing tables on the way are
made.  With `entering`, an array on the way stands for its last item. -/
def within (entering : Bool) (change : Table → Option Table) : Key → Table → Option Table
  | [], fields => change fields
  | name :: rest, fields =>
    match fields.lookup name with
    | none => do return fields ++ [(name, .table (← within entering change rest []))]
    | some (.table inner) => do
      return fields.replace name (.table (← within entering change rest inner))
    | some (.array items) =>
      match entering, items.getLast? with
      | true, some (.table inner) => do
        let last := .table (← within entering change rest inner)
        return fields.replace name (.array (items.dropLast ++ [last]))
      | _, _ => none
    | some _ => none

/-- A table with one more empty table at the end of an array of tables. -/
def append? (name : String) (fields : Table) : Option Table :=
  match fields.lookup name with
  | none => some (fields ++ [(name, .array [.table []])])
  | some (.array items) => some (fields.replace name (.array (items ++ [.table []])))
  | some _ => none

end Table
end Toml
end Reindent
