/-
Sets of characters given by ranges of code points.

The standard lists a character property as ranges.  A table here is such a list,
in increasing order, with both ends of a range included, and `inRanges` asks
whether a character lies in one of them.
-/

namespace FleetPlan.Text

/-- Whether the character's code point lies in one of the ranges. -/
def inRanges (table : List (Nat × Nat)) (c : Char) : Bool :=
  table.any fun (low, high) => low ≤ c.toNat && c.toNat ≤ high

end FleetPlan.Text
