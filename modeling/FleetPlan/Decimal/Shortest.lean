/-
The shortest decimal that reads back as a given double.

The numbers that round to a double form an interval around it, ends included
exactly when its mantissa is even.  Among the decimal grids with one, two, up to
seventeen digits, the first that has a point in the interval gives the digits; of
the value's two neighbours on that grid the nearer one is taken, and of two
equally near ones the even one.  If a grid has any point in the interval, one of
the two neighbours is such a point, so nothing shorter is missed.
-/
import FleetPlan.Decimal.Binary

namespace FleetPlan.Decimal

/-- `digits * 10 ^ exponent`. -/
structure Scientific where
  digits : Nat
  exponent : Int
  deriving DecidableEq, Repr

namespace Scientific

/-- The value as a quotient. -/
def numerator (s : Scientific) : Nat := s.digits * tenTo s.exponent.toNat

def denominator (s : Scientific) : Nat := tenTo (-s.exponent).toNat

/-- The same number without zeros at the end of its digits. -/
def stripped (s : Scientific) : Scientific :=
  if h : s.digits ≠ 0 ∧ s.digits % 10 = 0 then
    stripped ⟨s.digits / 10, s.exponent + 1⟩
  else s
termination_by s.digits
decreasing_by omega

end Scientific

namespace Magnitude

/-- Whether the double below is closer than the one above, as it is at a power of two. -/
def atBoundary (x : Magnitude) : Bool :=
  x.mantissa = twoTo 52 && lowest < x.exponent

/--
Whether a decimal rounds to the double.  Both are compared in quarters of the
double's last place, the width of the gap below being half of it at a boundary.
-/
def covers (x : Magnitude) (s : Scientific) : Bool :=
  -- The decimal in quarters of the last place is `left / right`.
  let (left, right) := inUnits (s.numerator * 4) s.denominator x.exponent
  let low := (4 * x.mantissa - (if x.atBoundary then 1 else 2)) * right
  let high := (4 * x.mantissa + 2) * right
  if x.mantissa % 2 = 0 then low ≤ left && left ≤ high
  else low < left && left < high

/-- The largest `k` for which `10 ^ k` is not above the (nonzero) value. -/
def decade (x : Magnitude) : Int :=
  if x.denominator ≤ x.numerator then
    ((Nat.toDigits 10 (x.numerator / x.denominator)).length : Int) - 1
  else
    -- The least power of ten that brings the value to one or more.
    -((Nat.toDigits 10 ((x.denominator - 1) / x.numerator)).length : Int)

/-- The neighbours of the value on the grid with spacing `10 ^ k`, the nearer one first. -/
def neighbours (x : Magnitude) (k : Int) : List Scientific :=
  let num := x.numerator * tenTo (-k).toNat
  let den := x.denominator * tenTo k.toNat
  let below := num / den
  if roundQuotient num den = below then [⟨below, k⟩, ⟨below + 1, k⟩]
  else [⟨below + 1, k⟩, ⟨below, k⟩]

/-- The first grid, from the coarsest of the given number on, that has a hit. -/
def searchGrids (x : Magnitude) : Nat → Int → Option Scientific
  | 0, _ => none
  | grids + 1, k =>
    match (x.neighbours k).find? x.covers with
    | some s => some s
    | none => searchGrids x grids (k - 1)

/-- The shortest decimal that rounds to the double. -/
def shortest (x : Magnitude) : Scientific :=
  if x.mantissa = 0 then ⟨0, 0⟩
  else ((searchGrids x 17 x.decade).getD ⟨0, 0⟩).stripped

end Magnitude

/-! ### How a double is written -/

/--
The text of a nonzero or zero magnitude: positional from `0.00001` up to below
`10 ^ 16`, with at least one digit after the point; otherwise scientific, with
the exponent's sign always written.
-/
def Scientific.text (s : Scientific) : String :=
  let ds := Nat.toDigits 10 s.digits
  -- The value is `0.d₁d₂… * 10 ^ point`.
  let point : Int := ds.length + s.exponent
  if s.digits = 0 then "0.0"
  else if -5 < point ∧ point ≤ 0 then
    String.ofList (['0', '.'] ++ List.replicate (-point).toNat '0' ++ ds)
  else if 0 < point ∧ point ≤ 16 then
    let whole := ds.take point.toNat ++ List.replicate s.exponent.toNat '0'
    let rest := ds.drop point.toNat
    String.ofList (whole ++ '.' :: (if rest.isEmpty then ['0'] else rest))
  else
    let mark := if point ≤ 0 then "e-" else "e+"
    let first := String.ofList (ds.take 1)
    let rest := if ds.length ≤ 1 then "" else "." ++ String.ofList (ds.drop 1)
    first ++ rest ++ mark ++ toString (point - 1).natAbs

/-- The text of a double. -/
def Double.text (d : Double) : String :=
  (if d.negative then "-" else "") ++ d.magnitude.shortest.text

end FleetPlan.Decimal
