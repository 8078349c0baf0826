/-
Numbers.

A numeral is read in two steps.  `Numeral.read` splits it by the grammar into its
digits; `Numeral.number` then says which number the digits are.  A whole number
that fits 64 bits is an integer, and so is its negative when it fits the signed
range; everything else is a double, a negative zero among them.

A double is made from at most as many leading digits as fit 64 bits.  Digits
beyond them only move the decimal point.
-/
import FleetPlan.Json.Reader

namespace FleetPlan.Json

/-- A numeral by its parts, the digits as octets. -/
structure Numeral where
  negative : Bool
  whole : Octets
  fraction : Octets
  /-- Whether the exponent is negative, and its digits. -/
  exponent : Option (Bool × Octets)
  /-- Whether there is a decimal point. -/
  pointed : Bool
  deriving DecidableEq, Repr

/-- A number as a document holds it. -/
inductive Number where
  | integer (value : Int)
  | double (value : Decimal.Double)
  deriving DecidableEq, Repr

namespace Number

def found : Number → Found
  | integer i => .integer i
  | double d => .double d

end Number

namespace Numeral

/-! ### The grammar -/

/-- One or more digits; `cut` is the fault when the text ends before the first. -/
def someDigits (cut : Fault) (s : Octets) : Except Fault (Parsed Octets s.length) :=
  match h : s.takeWhile Ascii.isDigit with
  | d :: ds => .ok ⟨d :: ds, s.dropWhile Ascii.isDigit, Taken.length_dropWhile_lt h⟩
  | [] => .error (if s.isEmpty then cut else .badNumber)

/-- The digits before the point: a zero alone, or digits that do not start with zero. -/
def wholePart (cut : Fault) : (s : Octets) → Except Fault (Parsed Octets s.length)
  | [] => .error cut
  | c :: r =>
    if c = Ascii.zero then
      if r.head?.any Ascii.isDigit then .error .badNumber else .ok ⟨[c], r, by simp⟩
    else someDigits cut (c :: r)

/-- The point and the digits behind it, if there is a point. -/
def fractionPart (cut : Fault) :
    (s : Octets) → Except Fault (Parsed (Option Octets) (s.length + 1))
  | [] => .ok (.nothingLeft none)
  | c :: r =>
    if c = Ascii.point then
      (someDigits cut r).map fun p => (p.map some).grow.grow
    else .ok (.leaving none (c :: r))

/-- The exponent, if there is one: a letter, an optional sign and digits. -/
def exponentPart (cut : Fault) :
    (s : Octets) → Except Fault (Parsed (Option (Bool × Octets)) (s.length + 1))
  | [] => .ok (.nothingLeft none)
  | c :: r =>
    if c = Ascii.lowerE || c = Ascii.upperE then
      match r with
      | [] => .error cut
      | d :: r' =>
        if d = Ascii.plus || d = Ascii.minus then
          (someDigits cut r').map fun p =>
            (p.map fun ds => some (decide (d = Ascii.minus), ds)).grow.grow.grow
        else
          (someDigits cut (d :: r')).map fun p =>
            (p.map fun ds => some (false, ds)).grow.grow
    else .ok (.leaving none (c :: r))

/-- A numeral from its first octet on; `cut` is the fault when the text ends inside it. -/
def read (cut : Fault) (s : Octets) : Except Fault (Parsed Numeral s.length) := do
  let negative := s.head? = some Ascii.minus
  let body := if negative then s.tail else s
  have hbody : body.length ≤ s.length := by simp only [body]; split <;> simp
  let ⟨whole, r₁, h₁⟩ ← wholePart cut body
  let ⟨fraction, r₂, h₂⟩ ← fractionPart cut r₁
  let ⟨exponent, r₃, h₃⟩ ← exponentPart cut r₂
  return ⟨⟨negative, whole, fraction.getD [], exponent, fraction.isSome⟩, r₃, by omega⟩

/-! ### The value -/

/-- The number that the digits are. -/
def digitsValue (ds : Octets) : Nat := ds.foldl (fun n d => 10 * n + (d.toNat - 0x30)) 0

/-- The largest significand that is kept. -/
def maxSignificand : Nat := 18446744073709551615

/--
As many of the digits as fit behind the significand, and how many do not fit.
From the first that does not fit on, none is taken.
-/
def absorb : (significand : Nat) → Octets → Nat × Nat
  | n, [] => (n, 0)
  | n, d :: ds =>
    let n' := 10 * n + (d.toNat - 0x30)
    if n' ≤ maxSignificand then absorb n' ds else (n, ds.length + 1)

/-- Significand and decimal exponent of the numeral. -/
def scientific (x : Numeral) : Nat × Int :=
  let (n, dropped) := absorb 0 x.whole
  let (n, lost) := absorb n x.fraction
  let shift : Int := dropped - (x.fraction.length - lost : Nat)
  match x.exponent with
  | none => (n, shift)
  | some (negative, ds) =>
    (n, if negative then shift - digitsValue ds else shift + digitsValue ds)

/-- The number that the numeral denotes, unless it is too large for a double. -/
def number (x : Numeral) : Except Fault Number :=
  let whole := digitsValue x.whole
  let isWhole := !x.pointed && x.exponent.isNone
  if isWhole && !x.negative && whole ≤ maxSignificand then .ok (.integer whole)
  else if isWhole && x.negative && 0 < whole && whole ≤ 9223372036854775808 then
    .ok (.integer (-whole))
  else
    let (significand, exponent) := x.scientific
    match Decimal.Magnitude.ofDecimal significand exponent with
    | some m => .ok (.double ⟨x.negative, m⟩)
    | none => .error .numberTooLarge

end Numeral

/-- A number from its first octet on. -/
def readNumber : Reader Number := fun s => do
  let ⟨numeral, r, h⟩ ← Numeral.read .endsInValue s
  let n ← numeral.number
  return ⟨n, r, h⟩

end FleetPlan.Json
