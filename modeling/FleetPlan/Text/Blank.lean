/-
White space, and text without it at the ends.

`isBlank` is the property White_Space, which has more members than core's
`Char.isWhitespace`: vertical tab, form feed, next line, the no-break spaces and
the spaces of typography are among them.  `trim` drops blanks at both ends and
nothing else.
-/
import FleetPlan.Text.Ranges

namespace FleetPlan.Text

/-- The property White_Space. -/
def blanks : List (Nat × Nat) :=
  [(0x9, 0xd), (0x20, 0x20), (0x85, 0x85), (0xa0, 0xa0), (0x1680, 0x1680), (0x2000, 0x200a),
   (0x2028, 0x2029), (0x202f, 0x202f), (0x205f, 0x205f), (0x3000, 0x3000)]

/-- Whether the character is white space. -/
def isBlank (c : Char) : Bool := inRanges blanks c

/-- The characters without the blanks at either end. -/
def trimChars (cs : List Char) : List Char :=
  ((cs.dropWhile isBlank).reverse.dropWhile isBlank).reverse

/-- The text without the blanks at either end. -/
def trim (s : String) : String := String.ofList (trimChars s.toList)

end FleetPlan.Text
