import Reindent.Decimal.Binary

/-!
# Shortest decimals

The text of a double-precision number: the fewest decimal digits that read back as the number, the
nearest of them if there are several.  Numbers from `0.0001` up to below `10 ^ 16` are written
positionally, with at least one digit after the point, and all others with an exponent of at least
two digits.
-/

namespace Reindent
namespace Decimal

/-- Decimal digits and a power of ten: `digits * 10 ^ exponent`. -/
structure Digits where
  digits : Nat
  exponent : Int
  deriving DecidableEq, Repr

/-- A value and the two ends of the interval of reals that round to it, over one denominator.  The
ends belong to the interval when the mantissa is even. -/
structure Interval where
  low : Nat
  value : Nat
  high : Nat
  den : Nat
  closed : Bool
  deriving DecidableEq, Repr

/-- The interval of a binary fraction.  Below a power of two the neighbour is half as far away. -/
def Interval.ofBinary (b : Binary) : Interval :=
  let unit := Ratio.scaled 1 2 (b.exponent - 2)
  let below := if b.mantissa = Nat.pow 2 52 && leastExponent < b.exponent then 1 else 2
  { low := (4 * b.mantissa - below) * unit.num
    value := 4 * b.mantissa * unit.num
    high := (4 * b.mantissa + 2) * unit.num
    den := unit.den
    closed := b.mantissa % 2 == 0 }

/-- The interval with all values multiplied by `10 ^ exponent`. -/
def Interval.timesTen (i : Interval) (exponent : Int) : Interval :=
  { i with
    low := i.low * Nat.pow 10 exponent.toNat
    value := i.value * Nat.pow 10 exponent.toNat
    high := i.high * Nat.pow 10 exponent.toNat
    den := i.den * Nat.pow 10 (-exponent).toNat }

def Interval.contains (i : Interval) (n : Nat) : Bool :=
  if i.closed then decide (i.low ≤ n * i.den) && decide (n * i.den ≤ i.high)
  else decide (i.low < n * i.den) && decide (n * i.den < i.high)

/-- The natural number in the interval that is nearest to its value.  A tie goes to the even one. -/
def Interval.nearest? (i : Interval) : Option Nat :=
  let below := i.value / i.den
  let rest := 2 * (i.value % i.den)
  match i.contains below, i.contains (below + 1) with
  | false, false => none
  | true, false => some below
  | false, true => some (below + 1)
  | true, true =>
    if rest < i.den then some below
    else if i.den < rest then some (below + 1)
    else some (below + below % 2)

/-- The power of ten of the first digit of a positive fraction. -/
def leadingExponent (r : Ratio) : Int :=
  if r.den ≤ r.num then ((Nat.toDigits 10 (r.num / r.den)).length : Int) - 1
  else
    match (List.range 400).find? fun k => decide (r.den ≤ r.num * Nat.pow 10 k) with
    | some k => -(k : Int)
    | none => 0

/-- Decimal digits without the zeros at their end. -/
def Digits.stripped : Nat → Digits → Digits
  | 0, d => d
  | fuel + 1, d =>
    if d.digits % 10 = 0 && d.digits ≠ 0 then
      Digits.stripped fuel { digits := d.digits / 10, exponent := d.exponent + 1 }
    else d

/-- The fewest digits that read back as a positive binary fraction.  Seventeen digits are enough. -/
def fewestDigits (b : Binary) : Digits :=
  let interval := Interval.ofBinary b
  let leading := leadingExponent { num := interval.value, den := interval.den }
  let found := (List.range 18).findSome? fun (places : Nat) =>
    let exponent := leading - places
    ((interval.timesTen (-exponent)).nearest?).map fun n =>
      { digits := n, exponent : Digits }
  (found.getD { digits := 0, exponent := 0 }).stripped 20

/-- Digits with a point after the first `whole` of them, and zeros where there are none. -/
def positional (digits : List Char) (whole : Int) : List Char :=
  if whole ≤ 0 then '0' :: '.' :: List.replicate (-whole).toNat '0' ++ digits
  else
    let padded := digits ++ List.replicate (whole.toNat - digits.length) '0'
    let after := padded.drop whole.toNat
    padded.take whole.toNat ++ '.' :: (if after = [] then ['0'] else after)

/-- Digits with a point after the first and an exponent. -/
def scientific (digits : List Char) (exponent : Int) : List Char :=
  let point := match digits with
    | [] => []
    | [d] => [d]
    | d :: rest => d :: '.' :: rest
  let size := Nat.toDigits 10 exponent.natAbs
  point ++ 'e' :: (if exponent < 0 then '-' else '+') ::
    List.replicate (2 - size.length) '0' ++ size

/-- The text of a number with the fewest digits that read back as it. -/
def shortest (x : Float) : String :=
  match Binary.ofFloat? x with
  | none => if x.isNaN then "NaN" else if x < 0 then "-Infinity" else "Infinity"
  | some b =>
    let sign := if b.negative then ['-'] else []
    if b.mantissa = 0 then String.ofList (sign ++ ['0', '.', '0'])
    else
      let d := fewestDigits b
      let digits := Nat.toDigits 10 d.digits
      let leading := d.exponent + digits.length - 1
      let body := if -4 ≤ leading && leading < 16 then positional digits (leading + 1)
        else scientific digits leading
      String.ofList (sign ++ body)

end Decimal
end Reindent
