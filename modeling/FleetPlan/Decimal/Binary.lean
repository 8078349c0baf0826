/-
Doubles by exact arithmetic.

A finite double is a mantissa below 2 ^ 53 times a power of two not below
2 ^ -1074, and the nearest double to a quotient of two natural numbers is found
with natural numbers alone: scale the quotient until it has 53 bits (fewer only
at the bottom of the range), divide, and round a half to the even neighbour.

A decimal numeral is read the way a fast reader does it: the significand becomes
a double first and is then multiplied or divided by a power of ten that is itself
a double, so the result is the nearest double only while both steps are exact.
-/

namespace FleetPlan.Decimal

def twoTo (n : Nat) : Nat := Nat.pow 2 n

def tenTo (n : Nat) : Nat := Nat.pow 10 n

/-- The size of a finite double: `mantissa * 2 ^ exponent`. -/
structure Magnitude where
  mantissa : Nat
  exponent : Int
  deriving DecidableEq, Repr

namespace Magnitude

/-- The smallest exponent of a double. -/
def lowest : Int := -1074

/-- The largest exponent of a double. -/
def highest : Int := 971

def zero : Magnitude := ⟨0, lowest⟩

/-- The value as a quotient. -/
def numerator (x : Magnitude) : Nat := x.mantissa * twoTo x.exponent.toNat

def denominator (x : Magnitude) : Nat := twoTo (-x.exponent).toNat

/-- The quotient rounded to a whole number, a half going to the even neighbour. -/
def roundQuotient (num den : Nat) : Nat :=
  let q := num / den
  let r := num % den
  if 2 * r < den then q
  else if den < 2 * r then q + 1
  else if q % 2 = 0 then q else q + 1

/-- `num / den` in units of `2 ^ e`, as a quotient again. -/
def inUnits (num den : Nat) (e : Int) : Nat × Nat :=
  (num * twoTo (-e).toNat, den * twoTo e.toNat)

/--
The unit in which `num / den` has 53 bits, or the lowest unit of all.  The
difference of the logarithms is off by at most one, which the comparison mends.
-/
def unitOf (num den : Nat) : Int :=
  let e : Int := (Nat.log2 num : Int) - Nat.log2 den - 53
  let (n, d) := inUnits num den e
  max lowest (if n / d < twoTo 53 then e else e + 1)

/-- The double nearest to `num / den`, or none when that is beyond the largest double. -/
def nearest (num den : Nat) : Option Magnitude :=
  if num = 0 then some zero else
  let e := unitOf num den
  let (n, d) := inUnits num den e
  let m := roundQuotient n d
  let (m, e) := if m = twoTo 53 then (twoTo 52, e + 1) else (m, e)
  if highest < e then none else some ⟨m, e⟩

/-- The nearest double to a product. -/
def times (x y : Magnitude) : Option Magnitude :=
  nearest (x.numerator * y.numerator) (x.denominator * y.denominator)

/-- The nearest double to a quotient. -/
def dividedBy (x y : Magnitude) : Option Magnitude :=
  nearest (x.numerator * y.denominator) (x.denominator * y.numerator)

/-- The largest power of ten that is used as a double. -/
def tenPowers : Nat := 308

/-- The double nearest to a power of ten. -/
def tenPower (n : Nat) : Magnitude := (nearest (tenTo n) 1).getD zero

/-- Division by powers of ten, by at most `10 ^ 308` at a time and no further than zero. -/
def divTen (x : Magnitude) (n : Nat) : Magnitude :=
  if x.mantissa = 0 then x
  else if n ≤ tenPowers then (x.dividedBy (tenPower n)).getD zero
  else divTen ((x.dividedBy (tenPower tenPowers)).getD zero) (n - tenPowers)
termination_by n
decreasing_by simp only [tenPowers] at *; omega

/-- `significand * 10 ^ exponent`, or none when it is too large for a double. -/
def ofDecimal (significand : Nat) (exponent : Int) : Option Magnitude :=
  match nearest significand 1 with
  | none => none
  | some x =>
    if exponent < 0 then some (x.divTen (-exponent).toNat)
    else if exponent.toNat ≤ tenPowers then x.times (tenPower exponent.toNat)
    else if x.mantissa = 0 then some x else none

end Magnitude

/-- A finite double, with its sign kept apart so that zero has two. -/
structure Double where
  negative : Bool
  magnitude : Magnitude
  deriving DecidableEq, Repr

end FleetPlan.Decimal
