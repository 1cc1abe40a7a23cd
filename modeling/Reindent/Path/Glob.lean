import Reindent.Text.Basic

/-!
# Glob patterns

A pattern describes whole texts: `*` stands for any characters, `?` for any one character, a
bracket for one character of a set, and every other character for itself.  A bracket that is never
closed stands for itself, and there is no escape.
-/

namespace Reindent
namespace Glob

/-- A set of characters, as closed ranges that are in it or, when negated, not in it. -/
structure CharSet where
  negated : Bool
  ranges : List (Char × Char)
  deriving DecidableEq, Repr

def CharSet.contains (set : CharSet) (c : Char) : Bool :=
  (set.ranges.any fun r => decide (r.1 ≤ c) && decide (c ≤ r.2)) != set.negated

inductive Item where
  | run
  | any
  | literal (c : Char)
  | oneOf (set : CharSet)
  deriving DecidableEq, Repr

/-- The pieces of a bracket's body between the hyphens that make ranges.  A hyphen makes a range
only after `wait` characters of its piece: one at the front of the body, two later on. -/
def rangePieces : Nat → Text → Text → List Text
  | _, piece, [] => [piece]
  | wait, piece, c :: cs =>
    if wait = 0 && c = '-' then piece :: rangePieces 2 [] cs
    else rangePieces (wait - 1) (piece ++ [c]) cs

/-- A hyphen at the end of the body is a character of the set. -/
def keepLastHyphen : List Text → List Text
  | [] => []
  | [piece, []] => [piece ++ ['-']]
  | piece :: rest => piece :: keepLastHyphen rest

/-- Joins two pieces around a range that runs backwards, without its two ends. -/
def dropReversed : List Text → List Text
  | [] => []
  | piece :: rest =>
    match dropReversed rest with
    | [] => [piece]
    | next :: others =>
      match piece.getLast?, next.head? with
      | some a, some b =>
        if b < a then (piece.dropLast ++ next.drop 1) :: others else piece :: next :: others
      | _, _ => piece :: next :: others

/-- A character of a bracket's body, or the hyphen of a range. -/
inductive Mark where
  | char (c : Char)
  | range
  deriving DecidableEq, Repr

/-- The pieces of a body with the hyphens of the ranges between them. -/
def marks : List Text → List Mark
  | [] => []
  | [piece] => piece.map .char
  | piece :: rest => piece.map .char ++ .range :: marks rest

/-- The ranges of a body.  The hyphen of a range that has lost its front is a character. -/
def rangesOf : List Mark → List (Char × Char)
  | .char a :: .range :: .char b :: rest => (a, b) :: rangesOf rest
  | .char a :: rest => (a, a) :: rangesOf rest
  | .range :: rest => ('-', '-') :: rangesOf rest
  | [] => []

/-- The set that a bracket's body describes.  An exclamation mark at the front negates it. -/
def charSet (body : Text) : CharSet :=
  let wait := if ['!'].isPrefixOf body then 2 else 1
  match marks (dropReversed (keepLastHyphen (rangePieces wait [] body))) with
  | .char '!' :: rest => { negated := true, ranges := rangesOf rest }
  | all => { negated := false, ranges := rangesOf all }

/-- The body of a bracket whose opening has been read.  A closing bracket at its front, or after an
exclamation mark, belongs to the body. -/
def bracketBody? (rest : Text) : Option Text :=
  let (bang, afterBang) := match rest with
    | '!' :: cs => (['!'], cs)
    | cs => ([], cs)
  let (first, others) := match afterBang with
    | ']' :: cs => ([']'], cs)
    | cs => ([], cs)
  if others.contains ']' then some (bang ++ first ++ others.takeWhile (· ≠ ']')) else none

/-- The items of a pattern, after passing over `skip` of its characters. -/
def itemsFrom : Nat → Text → List Item
  | _, [] => []
  | skip + 1, _ :: cs => itemsFrom skip cs
  | 0, c :: cs =>
    if c = '*' then .run :: itemsFrom 0 cs
    else if c = '?' then .any :: itemsFrom 0 cs
    else if c = '[' then
      match bracketBody? cs with
      | some body => .oneOf (charSet body) :: itemsFrom (body.length + 1) cs
      | none => .literal '[' :: itemsFrom 0 cs
    else .literal c :: itemsFrom 0 cs

def items (pattern : Text) : List Item :=
  itemsFrom 0 pattern

/-- The text and what is left of it after each of its characters. -/
def suffixes : Text → List Text
  | [] => [[]]
  | c :: cs => (c :: cs) :: suffixes cs

/-- One character fits an item that stands for one character. -/
def Item.fits (item : Item) (c : Char) : Bool :=
  match item with
  | .run => false
  | .any => true
  | .literal d => c == d
  | .oneOf set => set.contains c

/-- The items describe the whole text. -/
def itemsMatch : List Item → Text → Bool
  | [], t => t.isEmpty
  | .run :: rest, t => (suffixes t).any (itemsMatch rest)
  | item :: rest, t =>
    match t with
    | [] => false
    | c :: cs => item.fits c && itemsMatch rest cs

/-! ## Matching in one pass

Asking `itemsMatch` directly tries every way to divide the text among the runs.  It is enough to
know for each suffix of the text whether the later items describe it. -/

def first (verdicts : List Bool) : Bool :=
  verdicts.head?.getD false

/-- For each place of a list whether some verdict from there on is positive. -/
def fromHereOn : List Bool → List Bool
  | [] => []
  | v :: rest =>
    let later := fromHereOn rest
    (v || first later) :: later

/-- For each suffix of a text whether it starts with a character that fits the item and the verdict
on the rest is positive. -/
def afterOne (item : Item) : Text → List Bool → List Bool
  | [], _ => [false]
  | c :: cs, verdicts => (item.fits c && first verdicts.tail) :: afterOne item cs verdicts.tail

/-- For each suffix of a text whether the items describe it. -/
def verdicts : List Item → Text → List Bool
  | [], t => (suffixes t).map List.isEmpty
  | .run :: rest, t => fromHereOn (verdicts rest t)
  | item :: rest, t => afterOne item t (verdicts rest t)

theorem first_map_suffixes (f : Text → Bool) (t : Text) : first ((suffixes t).map f) = f t := by
  cases t <;> rfl

theorem fromHereOn_map_suffixes (f : Text → Bool) (t : Text) :
    fromHereOn ((suffixes t).map f) = (suffixes t).map fun s => (suffixes s).any f := by
  induction t with
  | nil => simp [suffixes, fromHereOn, first]
  | cons c cs ih =>
    simp only [suffixes, List.map_cons, fromHereOn, List.any_cons, ih, first_map_suffixes]

theorem afterOne_map_suffixes (item : Item) (f : Text → Bool) (t : Text) :
    afterOne item t ((suffixes t).map f) = (suffixes t).map fun s =>
      match s with
      | [] => false
      | c :: cs => item.fits c && f cs := by
  induction t with
  | nil => simp [suffixes, afterOne]
  | cons c cs ih =>
    simp only [suffixes, List.map_cons, afterOne, List.tail_cons, first_map_suffixes, ih]

theorem verdicts_eq (items : List Item) (t : Text) :
    verdicts items t = (suffixes t).map (itemsMatch items) := by
  induction items with
  | nil => rfl
  | cons item rest ih =>
    cases item with
    | run =>
      rw [verdicts, ih, fromHereOn_map_suffixes]
      rfl
    | any =>
      change afterOne .any t (verdicts rest t) = _
      rw [ih, afterOne_map_suffixes]
      rfl
    | literal d =>
      change afterOne (.literal d) t (verdicts rest t) = _
      rw [ih, afterOne_map_suffixes]
      rfl
    | oneOf set =>
      change afterOne (.oneOf set) t (verdicts rest t) = _
      rw [ih, afterOne_map_suffixes]
      rfl

/-- The pattern describes the whole text. -/
def matchesText (pattern : Text) (t : Text) : Bool :=
  first (verdicts (items pattern) t)

theorem matchesText_eq (pattern t : Text) :
    matchesText pattern t = itemsMatch (items pattern) t := by
  rw [matchesText, verdicts_eq, first_map_suffixes]

end Glob
end Reindent
