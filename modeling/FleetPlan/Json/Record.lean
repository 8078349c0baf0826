/-
The common presences of a record's fields.

Most fields are either demanded or left out when empty.  These are the presences
by what "empty" means for the field's type.
-/
import FleetPlan.Json.Shape

namespace FleetPlan

/-- Free-form names and texts that travel along. -/
abbrev Annotations := Dict String

namespace Json.Presence

/-- A text that may be left out when it is empty. -/
def unlessEmpty : Presence String := omitted "" (·.isEmpty)

/-- A list that may be left out when it is empty. -/
def unlessNil {α : Type} : Presence (List α) := omitted [] (·.isEmpty)

/-- A dictionary that may be left out when it is empty. -/
def unlessBare {α : Type} : Presence (Dict α) := omitted .empty (·.isEmpty)

/-- A value that may be left out when there is none. -/
def unlessNone {α : Type} : Presence (Option α) := omitted none (·.isNone)

/-- A flag that may be left out when it is down. -/
def unlessFalse : Presence Bool := omitted false (!·)

/-- A count that may be left out when it is zero. -/
def unlessZero {range : IntRange} : Presence (IntIn range) := omitted .zero (·.val == 0)

end Json.Presence

namespace Json.Shape

/-- Free-form names and texts. -/
def annotations : Shape Annotations := .dict .text

/-- A list of texts. -/
def texts : Shape (List String) := .list .text

end Json.Shape

end FleetPlan
