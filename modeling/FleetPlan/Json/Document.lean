/-
Documents on their way out.

A `Document` is what will be written: members in the order they are to appear,
and payloads as they were read.  It is written without any space, or over several
lines with two blanks for each level; both forms differ in space alone, and
neither touches a payload.
-/
import FleetPlan.Json.Literal
import FleetPlan.Json.Number

namespace FleetPlan.Json

inductive Document where
  | null
  | boolean (value : Bool)
  | integer (value : Int)
  | double (value : Decimal.Double)
  | text (value : String)
  /-- Written as it is. -/
  | verbatim (text : String)
  | list (items : List Document)
  | object (members : List (String × Document))

namespace Document

/-- Texts with a separator between them. -/
def joined (separator : String) : List String → String
  | [] => ""
  | [s] => s
  | s :: rest => s ++ separator ++ joined separator rest

def scalarText : Document → String
  | boolean b => if b then "true" else "false"
  | integer i => toString i
  | double d => d.text
  | text s => writeText s
  | verbatim t => t
  | _ => "null"

/-! ### Without space -/

mutual

def compact : Document → String
  | list items => "[" ++ joined "," (compactItems items) ++ "]"
  | object members => "\x7b" ++ joined "," (compactMembers members) ++ "\x7d"
  | null => "null"
  | boolean b => scalarText (boolean b)
  | integer i => scalarText (integer i)
  | double d => scalarText (double d)
  | text s => scalarText (text s)
  | verbatim t => scalarText (verbatim t)

def compactItems : List Document → List String
  | [] => []
  | d :: rest => compact d :: compactItems rest

def compactMembers : List (String × Document) → List String
  | [] => []
  | (name, d) :: rest => (writeText name ++ ":" ++ compact d) :: compactMembers rest

end

/-! ### Over several lines -/

/-- A line break and the blanks of a level. -/
def newline (level : Nat) : String :=
  "\n" ++ String.ofList (List.replicate (2 * level) ' ')

/-- A container's items each on a line of its own, or nothing between the brackets. -/
def block (opening closing : String) (level : Nat) (items : List String) : String :=
  if items.isEmpty then opening ++ closing
  else opening ++ newline (level + 1) ++ joined ("," ++ newline (level + 1)) items ++
    newline level ++ closing

mutual

/-- The document with its first line at the place where it stands and the others at `level`. -/
def prettyAt (level : Nat) : Document → String
  | list items => block "[" "]" level (prettyItems (level + 1) items)
  | object members => block "\x7b" "\x7d" level (prettyMembers (level + 1) members)
  | null => "null"
  | boolean b => scalarText (boolean b)
  | integer i => scalarText (integer i)
  | double d => scalarText (double d)
  | text s => scalarText (text s)
  | verbatim t => scalarText (verbatim t)

def prettyItems (level : Nat) : List Document → List String
  | [] => []
  | d :: rest => prettyAt level d :: prettyItems level rest

def prettyMembers (level : Nat) : List (String × Document) → List String
  | [] => []
  | (name, d) :: rest => (writeText name ++ ": " ++ prettyAt level d) :: prettyMembers level rest

end

def pretty (d : Document) : String := prettyAt 0 d

end Document

end FleetPlan.Json
