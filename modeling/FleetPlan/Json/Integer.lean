/-
Integers of a limited range.

A place that holds an integer names the range it allows, and the value that is
read from it carries the proof that it is in that range.
-/

namespace FleetPlan.Json

/-- The integers a place may ask for. -/
inductive IntRange where
  /-- Signed, 64 bits. -/
  | signed64
  /-- Unsigned, 16 bits. -/
  | unsigned16
  /-- Unsigned, 64 bits: a count. -/
  | count
  deriving DecidableEq, Repr

namespace IntRange

/-- Whether an integer is in the range. -/
def holds : IntRange → Int → Bool
  | signed64, i => -9223372036854775808 ≤ i && i ≤ 9223372036854775807
  | unsigned16, i => 0 ≤ i && i ≤ 65535
  | count, i => 0 ≤ i && i ≤ 18446744073709551615

def describe : IntRange → String
  | signed64 => "i64"
  | unsigned16 => "u16"
  | count => "usize"

theorem holds_zero : (range : IntRange) → range.holds 0 = true
  | signed64 | unsigned16 | count => by decide

end IntRange

/-- An integer of the range. -/
structure IntIn (range : IntRange) where
  val : Int
  inRange : range.holds val = true
  deriving DecidableEq, Repr

namespace IntIn

variable {range : IntRange}

/-- The integer as one of the range, if it is in it. -/
def ofInt? (range : IntRange) (i : Int) : Option (IntIn range) :=
  if h : range.holds i = true then some ⟨i, h⟩ else none

def zero : IntIn range := ⟨0, range.holds_zero⟩

instance : Inhabited (IntIn range) := ⟨zero⟩

end IntIn

end FleetPlan.Json
