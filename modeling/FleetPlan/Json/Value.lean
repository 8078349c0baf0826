/-
Values read for what they say.

Here nothing is kept as written: escapes and numbers are decoded, an object's
members stand in the order of their names, and of two members with one name the
later counts.  Two texts that say the same give the same value, however they are
laid out.  Containers nest to a limited depth.

One name is reserved.  An object whose first member bears it holds a document
written out as text, and stands for what that document says; it may have no other
member.  Behind another member the name is a name like any other.
-/
import FleetPlan.Json.Container
import FleetPlan.Json.Document
import FleetPlan.Dict

namespace FleetPlan.Json

inductive Value where
  | null
  | boolean (value : Bool)
  | number (value : Number)
  | text (value : String)
  | list (items : List Value)
  /-- The members by increasing name, no name twice. -/
  | object (members : List (String × Value))
  deriving Inhabited

namespace Value

/-- How deep containers may nest. -/
def maxDepth : Nat := 127

/-- The name of the member that holds a document written out as text. -/
def reservedName : String := "$serde_json::private::RawValue"

/-! ### Objects -/

/-- Reads a member and puts it in its place. -/
def readInto (inner : Reader Value) (members : List (String × Value)) (name : String) :
    Reader (List (String × Value)) := fun s =>
  (readMember inner s).map (·.map fun v => Dict.insertEntry name v members)

/-- The text of a literal that has to stand here. -/
def readLiteral (s : Octets) : Except Fault (Parsed String s.length) :=
  withNext s .endsInValue fun c r h =>
    if c = Ascii.quote then (readText r).map (·.after h) else .error .valueExpected

/-- The rest of an object with the reserved name, from behind that name on. -/
def readWrittenOut (written : Octets → Except Fault Value) (s : Octets) :
    Except Fault (Parsed Value s.length) := do
  let ⟨_, r₁, h₁⟩ ← readColon s
  let ⟨writing, r₂, h₂⟩ ← readLiteral r₁
  let v ← written (Text.octets writing)
  let p ← closeObject r₂
  return ((p.map fun _ => v).after h₂).after h₁

/-- An object, from behind its opening brace on. -/
def readObject (written : Octets → Except Fault Value) (inner : Reader Value) (s : Octets) :
    Except Fault (Parsed Value s.length) :=
  match nextName true s with
  | .error f => .error f
  | .ok none => (closeObject s).map (·.map fun _ => object [])
  | .ok (some ⟨name, r, h⟩) =>
    if name = reservedName then (readWrittenOut written r).map (·.after h)
    else (foldMembers (readInto inner) true [] s).map (·.map object)

/-! ### Values -/

/-- Reads a value whose parts, if it may have any, are read by `inner`. -/
def readWith (written : Octets → Except Fault Value) (inner : Option (Reader Value)) :
    Reader Value := fun s =>
  withNext s .endsInValue fun c r h =>
    if c = Ascii.quote then
      (readText r).map fun p => (p.map text).after h
    else if c = Ascii.lowerN then
      (dropWord nullTail r).map fun p => (p.map fun _ => null).weaken h
    else if c = Ascii.lowerT then
      (dropWord trueTail r).map fun p => (p.map fun _ => boolean true).weaken h
    else if c = Ascii.lowerF then
      (dropWord falseTail r).map fun p => (p.map fun _ => boolean false).weaken h
    else if c = Ascii.minus || Ascii.isDigit c then
      (readNumber (c :: r)).map fun p => (p.map number).weaken h
    else if c = Ascii.openBracket then
      match inner with
      | none => .error .tooDeep
      | some inner =>
        (listItems inner true r).map fun p => (p.map list).after h
    else if c = Ascii.openBrace then
      match inner with
      | none => .error .tooDeep
      | some inner =>
        (readObject written inner r).map (·.after h)
    else .error .valueExpected

/--
Reads a value in which at most `depth` containers stand inside one another;
documents that are written out are read by `written`.
-/
def readAt (written : Octets → Except Fault Value) : (depth : Nat) → Reader Value
  | 0 => readWith written none
  | depth + 1 => readWith written (some (readAt written depth))

/--
The value that is all there is to a text, with at most `levels` documents written
out inside one another.
-/
def readWithin : (levels : Nat) → Octets → Except Fault Value
  | 0, _ => .error .tooDeep
  | levels + 1, s => do
    let p ← readAt (readWithin levels) maxDepth s
    if (skipSpace p.rest).isEmpty then return p.value else throw .trailingCharacters

/--
The value that is all there is to a text.  A document that is written out is
shorter than the text around it, so the levels never run out.
-/
def read (s : Octets) : Except Fault Value := readWithin (s.length + 1) s

/-! ### As a document -/

mutual

def document : Value → Document
  | null => .null
  | boolean b => .boolean b
  | number (.integer i) => .integer i
  | number (.double d) => .double d
  | text s => .text s
  | list items => .list (documents items)
  | object members => .object (memberDocuments members)

def documents : List Value → List Document
  | [] => []
  | v :: rest => document v :: documents rest

def memberDocuments : List (String × Value) → List (String × Document)
  | [] => []
  | (name, v) :: rest => (name, document v) :: memberDocuments rest

end

end Value

end FleetPlan.Json
