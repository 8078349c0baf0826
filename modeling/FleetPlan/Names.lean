/-
Sets of names, listed in order.
-/
import FleetPlan.Dict

namespace FleetPlan.Names

/-- The names of a list in increasing order, each once. -/
def sorted (names : List String) : List String :=
  (Dict.ofList (names.map fun n => (n, ()))).keys

/-- The first name that also stands earlier in the list. -/
def firstRepeated? : (seen names : List String) → Option String
  | _, [] => none
  | seen, n :: rest => if seen.contains n then some n else firstRepeated? (n :: seen) rest

end FleetPlan.Names
