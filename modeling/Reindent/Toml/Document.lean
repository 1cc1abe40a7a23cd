import Reindent.Toml.Scalar

/-!
# Reading TOML documents

A document is a list of statements: fields, headers of tables and headers of arrays of tables.  The
reader keeps track of which tables have been declared and which values are closed, so that nothing
is set twice.
-/

namespace Reindent
namespace Toml

/-! ## Blanks, comments and keys -/

def dropBlanks (t : Text) : Text :=
  t.dropWhile isLineBlank

def dropComment (t : Text) : Except Error Text :=
  match t with
  | '#' :: rest =>
    if (rest.takeWhile (· ≠ '\n')).any isForbidden then .error .malformed
    else .ok (rest.dropWhile (· ≠ '\n'))
  | other => .ok other

/-- A text without the blanks, line breaks and comments at its front. -/
def dropGaps (inComment : Bool) : Text → Except Error Text
  | [] => .ok []
  | c :: rest =>
    if c = '\n' then dropGaps false rest
    else if inComment then if isForbidden c then .error .malformed else dropGaps true rest
    else if isLineBlank c then dropGaps false rest
    else if c = '#' then dropGaps true rest
    else .ok (c :: rest)

def isBareKeyChar (c : Char) : Bool :=
  c.isAlphanum || c = '-' || c = '_'

def keyPart (t : Text) : Except Error (String × Text) :=
  match t with
  | [] => .error .malformed
  | c :: rest =>
    if isBareKeyChar c then
      .ok (String.ofList (t.takeWhile isBareKeyChar), t.dropWhile isBareKeyChar)
    else if c = '\'' then (literalBody rest).map fun r => (String.ofList r.1, r.2)
    else if c = '"' then (basicBody false 0 rest).map fun r => (String.ofList r.1, r.2)
    else .error .malformed

/-- A key: names with points between them.  The fuel bounds the number of names. -/
def keyWithin : Nat → Text → Except Error (Key × Text)
  | 0, _ => .error .malformed
  | fuel + 1, t => do
    let (name, rest) ← keyPart t
    match dropBlanks rest with
    | '.' :: after =>
      let (names, rest) ← keyWithin fuel (dropBlanks after)
      return (name :: names, rest)
    | other => return ([name], other)

/-- A key and the blanks after it. -/
def key (t : Text) : Except Error (Key × Text) :=
  keyWithin t.length t

/-- A key and the equals sign after it, with the blanks around. -/
def keyAndSign (t : Text) : Except Error (Key × Text) := do
  let (names, rest) ← key t
  match rest with
  | '=' :: after => return (names, dropBlanks after)
  | _ => throw .malformed

/-! ## Locks -/

/-- Why a key cannot be used again: its value is closed, or its table has been declared. -/
inductive Lock where
  | closed
  | declared
  deriving DecidableEq, Repr

/-- A lock on a key, and perhaps on all keys below it. -/
structure KeyLock where
  key : Key
  lock : Lock
  deep : Bool
  deriving DecidableEq, Repr

def isLocked (locks : List KeyLock) (lock : Lock) (key : Key) : Bool :=
  locks.any fun l => l.lock = lock && (l.key = key || (l.deep && l.key.isPrefixOf key))

/-- The locks without those on a key and on the keys below it. -/
def unlocked (locks : List KeyLock) (key : Key) : List KeyLock :=
  locks.filter fun l => !key.isPrefixOf l.key

/-- A value whose inside cannot be changed later on. -/
def Value.isContainer : Value → Bool
  | .array _ | .table _ => true
  | _ => false

/-- The lock that a value puts on its key. -/
def closing (key : Key) (v : Value) : List KeyLock :=
  if v.isContainer then [{ key, lock := .closed, deep := true }] else []

/-- Puts an answer for a missing one. -/
def orMalformed {α : Type} : Option α → Except Error α
  | some a => .ok a
  | none => .error .malformed

/-- A table with a field set at a key, made of the tables on the way.  `taken` gives the error for a
name that is taken. -/
def setField (entering : Bool) (taken : String → Error) (fields : Table) (key : Key) (v : Value) :
    Except Error Table :=
  match key.getLast?, fields.within entering some key.dropLast with
  | some name, some made =>
    match made.within entering (Table.insert? name v) key.dropLast with
    | some set => .ok set
    | none => .error (taken name)
  | _, _ => .error .malformed

/-! ## Values -/

/-- How deep values may be nested, counted in steps. -/
def depthLimit : Nat := 984

/-- How many steps an array leads down. -/
def arraySteps : Nat := 2

/-- How many steps a table on one line leads down. -/
def tableSteps : Nat := 3

/-- The steps that are left below, or an error if there are too few. -/
def descend (room steps : Nat) : Except Error Nat :=
  if room < steps then .error .tooDeep else .ok (room - steps)

mutual

/-- The value at the front of a text.  The fuel bounds the number of parts, and `room` how many
steps deeper they may be nested. -/
def value : Nat → Nat → Text → Except Error (Value × Text)
  | 0, _, _ => .error .malformed
  | fuel + 1, room, t =>
    match t with
    | '[' :: rest => do
      let room ← descend room arraySteps
      let (items, rest) ← arrayItems fuel room (← dropGaps false rest)
      return (.array items, rest)
    | '{' :: rest => do
      let room ← descend room tableSteps
      match dropBlanks rest with
      | '}' :: after => return (.table [], after)
      | other =>
        let (fields, rest) ← inlineFields fuel room [] [] other
        return (.table fields, rest)
    | other => scalar other

def arrayItems : Nat → Nat → Text → Except Error (List Value × Text)
  | 0, _, _ => .error .malformed
  | fuel + 1, room, t =>
    match t with
    | ']' :: rest => .ok ([], rest)
    | other => do
      let (v, rest) ← value fuel room other
      match ← dropGaps false rest with
      | ']' :: after => return ([v], after)
      | ',' :: after =>
        let (vs, rest) ← arrayItems fuel room (← dropGaps false after)
        return (v :: vs, rest)
      | _ => throw .malformed

/-- The fields of a table on one line up to its end. -/
def inlineFields : Nat → Nat → Table → List KeyLock → Text → Except Error (Table × Text)
  | 0, _, _, _, _ => .error .malformed
  | fuel + 1, room, fields, locks, t => do
    let (names, rest) ← keyAndSign t
    let (v, rest) ← value fuel room rest
    if isLocked locks .closed names then throw (.conflict (.closed names))
    let fields ← setField false (fun name => .conflict (.fieldTwice name)) fields names v
    match dropBlanks rest with
    | '}' :: after => return (fields, after)
    | ',' :: after => inlineFields fuel room fields (locks ++ closing names v) (dropBlanks after)
    | _ => throw .malformed

end

/-! ## Statements -/

/-- What has been read of a document. -/
structure Progress where
  /-- All fields set so far. -/
  fields : Table := []
  locks : List KeyLock := []
  /-- Tables made by points in keys, which the next header locks. -/
  pending : List Key := []
  /-- The table that fields are set in. -/
  header : Key := []

/-- The keys that a dotted key passes through, read from a header. -/
def passed (header names : Key) : List Key :=
  (List.range (names.length - 1)).map fun i => header ++ names.take (i + 1)

def fieldStatement (p : Progress) (t : Text) : Except Error (Progress × Text) := do
  let (names, rest) ← keyAndSign t
  let (v, rest) ← value (4 * rest.length + 4) depthLimit rest
  let through := passed p.header names
  let parent := p.header ++ names.dropLast
  match through.find? (isLocked p.locks .declared) with
  | some declared => throw (.conflict (.redefined declared))
  | none => pure ()
  if isLocked p.locks .closed parent then throw (.conflict (.closed parent))
  let fields ← setField true (fun _ => .malformed) p.fields (p.header ++ names) v
  return ({ p with
    fields
    locks := p.locks ++ closing (p.header ++ names) v
    pending := p.pending ++ through }, rest)

/-- A document in which the tables made by points in keys have been locked. -/
def Progress.settled (p : Progress) : Progress :=
  { p with
    locks := p.locks ++ p.pending.map fun key => { key, lock := .declared, deep := false }
    pending := [] }

def declaration (key : Key) : KeyLock :=
  { key, lock := .declared, deep := false }

/-- The header of a table, after its bracket. -/
def tableStatement (p : Progress) (t : Text) : Except Error (Progress × Text) := do
  let (names, rest) ← key (dropBlanks t)
  if isLocked p.locks .declared names || isLocked p.locks .closed names then
    throw (.conflict (.declaredTwice names))
  let fields ← orMalformed (p.fields.within true some names)
  match rest with
  | ']' :: after =>
    return ({ p with fields, locks := p.locks ++ [declaration names], header := names }, after)
  | _ => throw .malformed

/-- The header of an array of tables, after its two brackets. -/
def arrayStatement (p : Progress) (t : Text) : Except Error (Progress × Text) := do
  let (names, rest) ← key (dropBlanks t)
  if isLocked p.locks .closed names then throw (.conflict (.closed names))
  match names.getLast? with
  | none => throw .malformed
  | some name =>
    let fields ← orMalformed (p.fields.within true (Table.append? name) names.dropLast)
    match rest with
    | ']' :: ']' :: after =>
      return ({ p with
        fields
        locks := unlocked p.locks names ++ [declaration names]
        header := names }, after)
    | _ => throw .malformed

/-- One statement; a line without one changes nothing. -/
def statement (p : Progress) (t : Text) : Except Error (Progress × Text) :=
  match t with
  | '[' :: '[' :: rest => arrayStatement p.settled rest
  | '[' :: rest => tableStatement p.settled rest
  | '#' :: _ => .ok (p, t)
  | c :: _ =>
    if isBareKeyChar c || c = '"' || c = '\'' then fieldStatement p t else .error .malformed
  | [] => .ok (p, [])

/-- The statements of a document, one to a line.  The fuel bounds the number of lines. -/
def statements : Nat → Progress → Text → Except Error Progress
  | 0, p, _ => .ok p
  | fuel + 1, p, t =>
    match dropBlanks t with
    | [] => .ok p
    | '\n' :: rest => statements fuel p rest
    | other => do
      let (p, rest) ← statement p other
      match ← dropComment (dropBlanks rest) with
      | [] => return p
      | '\n' :: after => statements fuel p after
      | _ => throw .malformed

/-- A text with each carriage return before a newline dropped. -/
def dropReturns : Text → Text
  | '\r' :: '\n' :: rest => '\n' :: dropReturns rest
  | c :: rest => c :: dropReturns rest
  | [] => []

/-- The table that a document describes. -/
def parse (t : Text) : Except Error Table := do
  let text := dropReturns t
  return (← statements (text.length + 1) {} text).fields

end Toml
end Reindent
