/-!
# Binary fractions

A finite double-precision number as a sign and a natural number times a power of two, so that
rounding and printing can be done in exact arithmetic.
-/

namespace Reindent
namespace Decimal

/-- The number `mantissa * 2 ^ exponent`, with a sign. -/
structure Binary where
  negative : Bool
  mantissa : Nat
  exponent : Int
  deriving DecidableEq, Repr

/-- The smallest exponent of a double-precision number. -/
def leastExponent : Int := -1074

/-- The exact value of a number, none for an infinity or for what is not a number. -/
def Binary.ofFloat? (x : Float) : Option Binary :=
  let bits : Nat := x.toBits.toNat
  let negative := bits / Nat.pow 2 63 == 1
  let biased : Nat := bits / Nat.pow 2 52 % Nat.pow 2 11
  let fraction : Nat := bits % Nat.pow 2 52
  if biased = 2047 then none
  else if biased = 0 then some { negative, mantissa := fraction, exponent := leastExponent }
  else some { negative, mantissa := Nat.pow 2 52 + fraction, exponent := (biased : Int) - 1075 }

structure Ratio where
  num : Nat
  den : Nat
  deriving DecidableEq, Repr

/-- The natural number `n` times `base ^ exponent`. -/
def Ratio.scaled (n base : Nat) (exponent : Int) : Ratio :=
  { num := n * Nat.pow base exponent.toNat, den := Nat.pow base (-exponent).toNat }

def Ratio.timesTen (r : Ratio) (exponent : Int) : Ratio :=
  { num := r.num * Nat.pow 10 exponent.toNat, den := r.den * Nat.pow 10 (-exponent).toNat }

/-- The nearest natural number to a fraction; a half goes to the even neighbour. -/
def Ratio.round (r : Ratio) : Nat :=
  let whole := r.num / r.den
  let rest := 2 * (r.num % r.den)
  if rest < r.den then whole
  else if r.den < rest then whole + 1
  else whole + whole % 2

/-- A number rounded to a count of decimal places.  The exact value decides, a half goes to the even
neighbour, and the sign is kept.  Infinities stay as they are. -/
def roundedTo (places : Nat) (x : Float) : Float :=
  match Binary.ofFloat? x with
  | none => x
  | some b =>
    let units := ((Ratio.scaled b.mantissa 2 b.exponent).timesTen places).round
    let size := Float.ofScientific units true places
    if b.negative then -size else size

end Decimal
end Reindent
