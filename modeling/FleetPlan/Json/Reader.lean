/-
Readers of documents.

A reader takes octets and answers with a value and the octets behind it, or with
a fault.  This module holds the reader type and the readers of the smallest
parts: the space between tokens and the three words.
-/
import FleetPlan.Json.Ascii
import FleetPlan.Json.Fault
import FleetPlan.Taken

namespace FleetPlan.Json

/-- A value read from octets, with fewer than `bound` of them left behind it. -/
abbrev Parsed (α : Type) (bound : Nat) := Taken UInt8 α bound

/-- Reads a value from the front and uses up at least one octet. -/
abbrev Reader (α : Type) := (s : Octets) → Except Fault (Parsed α s.length)

/-! ### Space -/

/-- The octets from the first that is not space on. -/
def skipSpace (s : Octets) : Octets := s.dropWhile Ascii.isSpace

theorem length_skipSpace_le (s : Octets) : (skipSpace s).length ≤ s.length :=
  Taken.length_dropWhile_le _ _

/--
Skips space and hands on the first octet behind it together with the octets that
follow; a text that ends before that is the given fault.
-/
def withNext {α : Type} (s : Octets) (atEnd : Fault)
    (next : (c : UInt8) → (r : Octets) → r.length < s.length → Except Fault α) :
    Except Fault α :=
  match h : skipSpace s with
  | [] => .error atEnd
  | c :: r => next c r (by have := length_skipSpace_le s; rw [h] at this; exact this)

/-! ### Words -/

/-- Drops the rest of a word. -/
def dropWord : (word s : Octets) → Except Fault (Parsed Unit (s.length + 1))
  | [], s => .ok (.leaving () s)
  | _ :: _, [] => .error .endsInValue
  | w :: ws, c :: s =>
    if c = w then (dropWord ws s).map (·.grow) else .error .wordExpected

/-- What follows the first letter of `null`. -/
def nullTail : Octets := [0x75, 0x6c, 0x6c]

/-- What follows the first letter of `true`. -/
def trueTail : Octets := [0x72, 0x75, 0x65]

/-- What follows the first letter of `false`. -/
def falseTail : Octets := [0x61, 0x6c, 0x73, 0x65]

end FleetPlan.Json
