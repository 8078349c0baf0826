/-
The octets that have a meaning in a document.

Everything outside string literals is ASCII, so the readers compare octets and
never decode characters first.
-/
import FleetPlan.Text.Octets

namespace FleetPlan.Json.Ascii

abbrev quote : UInt8 := 0x22
abbrev backslash : UInt8 := 0x5c
abbrev slash : UInt8 := 0x2f
abbrev comma : UInt8 := 0x2c
abbrev colon : UInt8 := 0x3a
abbrev minus : UInt8 := 0x2d
abbrev plus : UInt8 := 0x2b
abbrev point : UInt8 := 0x2e
abbrev zero : UInt8 := 0x30
abbrev nine : UInt8 := 0x39
abbrev openBracket : UInt8 := 0x5b
abbrev closeBracket : UInt8 := 0x5d
abbrev openBrace : UInt8 := 0x7b
abbrev closeBrace : UInt8 := 0x7d
abbrev lowerB : UInt8 := 0x62
abbrev lowerE : UInt8 := 0x65
abbrev upperE : UInt8 := 0x45
abbrev lowerF : UInt8 := 0x66
abbrev lowerN : UInt8 := 0x6e
abbrev lowerR : UInt8 := 0x72
abbrev lowerT : UInt8 := 0x74
abbrev lowerU : UInt8 := 0x75

/-- Space, tab, line feed and carriage return may stand between tokens. -/
def isSpace (b : UInt8) : Bool := b == 0x20 || b == 0x09 || b == 0x0a || b == 0x0d

def isDigit (b : UInt8) : Bool := zero ≤ b && b ≤ nine

/-- The value of a digit to base sixteen. -/
def hexValue? (b : UInt8) : Option Nat :=
  if isDigit b then some (b.toNat - 0x30)
  else if 0x61 ≤ b && b ≤ 0x66 then some (b.toNat - 0x61 + 10)
  else if 0x41 ≤ b && b ≤ 0x46 then some (b.toNat - 0x41 + 10)
  else none

end FleetPlan.Json.Ascii
