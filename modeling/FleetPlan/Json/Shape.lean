/-
Shapes: what a place in a document may hold.

A `Shape α` says how a value of `α` stands in a document, once, for reading and
for writing alike.  A record is a list of named fields with a shape each, and
`Presence` says what it means when a field is not there.  A record may also be
given as a list of its fields in the order of its shape; a closed record refuses
members it does not name, an open one passes over them.

Reading recurses on the shape, so it goes no deeper than the shape does.  The
loops over items and members are those of the container module.
-/
import FleetPlan.Json.Container
import FleetPlan.Json.Document
import FleetPlan.Json.Scan
import FleetPlan.Dict

namespace FleetPlan.Json

/-- What it means when a field is not there, and when it need not be written. -/
inductive Presence (α : Type) where
  /-- It has to be there. -/
  | required
  /-- An object may leave it out, a list may not; it is always written. -/
  | optional (absent : α)
  /-- It may be left out; it is always written. -/
  | defaulted (absent : α)
  /-- It may be left out, and is not written when it says nothing. -/
  | omitted (absent : α) (isAbsent : α → Bool)

namespace Presence

variable {α : Type}

/-- The value of a field that an object leaves out. -/
def inObject : Presence α → Option α
  | required => none
  | optional a | defaulted a | omitted a _ => some a

/-- The value of a field that a list is too short for. -/
def inList : Presence α → Option α
  | required | optional _ => none
  | defaulted a | omitted a _ => some a

/-- Whether the value is left out of the written record. -/
def hides : Presence α → α → Bool
  | omitted _ isAbsent, a => isAbsent a
  | _, _ => false

end Presence

mutual

inductive Shape : Type → Type 1 where
  | text : Shape String
  | integer (range : IntRange) : Shape (IntIn range)
  | flag : Shape Bool
  /-- Any value, kept as written. -/
  | payload : Shape Payload
  /-- One of several names. -/
  | choice {α : Type} (options : List α) (name : α → String) : Shape α
  | list {α : Type} (item : Shape α) : Shape (List α)
  | dict {α : Type} (item : Shape α) : Shape (Dict α)
  /-- The value or null. -/
  | nullable {α : Type} (inner : Shape α) : Shape (Option α)
  | record {β π α : Type} (name : String) (closed : Bool) (fields : Fields β π)
      (make : β → α) (parts : α → β) : Shape α

/-- Fields whose values form `β`; while they are gathered they form `π`. -/
inductive Fields : Type → Type → Type 1 where
  | done : Fields Unit Unit
  | field {α β π : Type} (name : String) (presence : Presence α) (shape : Shape α)
      (rest : Fields β π) : Fields (α × β) (Option α × π)

end

/-! ### What does not fit -/

/-- The fault of a value that is not of the wanted kind, from its first octet on. -/
def misfit (wanted : Wanted) : Octets → Fault
  | [] => .endsInValue
  | c :: r =>
    let word (tail : Octets) (found : Found) : Fault :=
      match dropWord tail r with
      | .error f => f
      | .ok _ => .mismatch found wanted
    if c = Ascii.lowerN then word nullTail .null
    else if c = Ascii.lowerT then word trueTail (.boolean true)
    else if c = Ascii.lowerF then word falseTail (.boolean false)
    else if c = Ascii.minus || Ascii.isDigit c then
      match readNumber (c :: r) with
      | .error f => f
      | .ok p => .mismatch p.value.found wanted
    else if c = Ascii.quote then
      match readText r with
      | .error f => f
      | .ok p => .mismatch (.text p.value) wanted
    else if c = Ascii.openBracket then .mismatch .sequence wanted
    else if c = Ascii.openBrace then .mismatch .map wanted
    else .valueExpected

/-! ### Scalars -/

def readString : Reader String := fun s =>
  withNext s .endsInValue fun c r h =>
    if c = Ascii.quote then (readText r).map (·.after h)
    else .error (misfit .text (c :: r))

def readInteger (range : IntRange) : Reader (IntIn range) := fun s =>
  withNext s .endsInValue fun c r h =>
    if c = Ascii.minus || Ascii.isDigit c then
      match readNumber (c :: r) with
      | .error f => .error f
      | .ok ⟨.integer i, r', h'⟩ =>
        if hi : range.holds i = true then
          .ok ⟨⟨i, hi⟩, r', by simp only [List.length_cons] at h'; omega⟩
        else .error (.outOfRange i range)
      | .ok ⟨.double d, _, _⟩ => .error (.mismatch (.double d) (.integer range))
    else .error (misfit (.integer range) (c :: r))

def readFlag : Reader Bool := fun s =>
  withNext s .endsInValue fun c r h =>
    if c = Ascii.lowerT then
      (dropWord trueTail r).map fun p => (p.map fun _ => true).weaken h
    else if c = Ascii.lowerF then
      (dropWord falseTail r).map fun p => (p.map fun _ => false).weaken h
    else .error (misfit .boolean (c :: r))

/-- The null that may stand beside the name of a choice. -/
def readUnit : Reader Unit := fun s =>
  withNext s .endsInValue fun c r h =>
    if c = Ascii.lowerN then (dropWord nullTail r).map (·.weaken h)
    else .error (misfit .unit (c :: r))

/-- The option with this name. -/
def chosen {α : Type} (options : List α) (name : α → String) (key : String) : Except Fault α :=
  match options.find? (name · = key) with
  | some a => .ok a
  | none => .error (.unknownChoice key (options.map name))

/-- The option whose name is read. -/
def readChosen {α : Type} (options : List α) (name : α → String) (readName : Reader String) :
    Reader α := fun s => do
  let p ← readName s
  let a ← chosen options name p.value
  return p.map fun _ => a

/--
The name of a choice at the head of an object.  It is asked for as any member's name is:
what is not in quotes is no name, whatever value it would be, and an object without a
member gives none.
-/
def readChoiceName : Reader String := fun s =>
  withNext s .endsInObject fun c r h =>
    if c = Ascii.quote then (readText r).map (·.after h)
    else if c = Ascii.closeBrace then .error .valueExpected
    else .error .keyExpected

/-- The brace behind the one member of a choice. -/
def closeChoice (s : Octets) : Except Fault (Parsed Unit s.length) :=
  withNext s .endsInObject fun c r h =>
    if c = Ascii.closeBrace then .ok ⟨(), r, h⟩ else .error .valueExpected

/-- The option whose name the one member of an object has, beside a null. -/
def readChosenMember {α : Type} (options : List α) (name : α → String) : Reader α := fun s => do
  let p ← readChosen options name readChoiceName s
  let q ← readMember readUnit p.rest
  let e ← closeChoice q.rest
  return ((e.map fun _ => p.value).after q.rest_lt).after p.rest_lt

/-- A choice is its name, or an object whose one member has that name and is null. -/
def readChoice {α : Type} (options : List α) (name : α → String) : Reader α := fun s =>
  withNext s .endsInValue fun c r h =>
    if c = Ascii.quote then readChosen options name readString s
    else if c = Ascii.openBrace then (readChosenMember options name r).map (·.after h)
    else .error .valueExpected

/-! ### Records -/

namespace Fields

/-- Nothing gathered yet. -/
def blank : {β π : Type} → Fields β π → π
  | _, _, done => ()
  | _, _, field _ _ _ rest => (none, rest.blank)

/-- The names in their order. -/
def names : {β π : Type} → Fields β π → List String
  | _, _, done => []
  | _, _, field name _ _ rest => name :: rest.names

/-- All values, once every member of the object was seen. -/
def complete : {β π : Type} → Fields β π → π → Except Fault β
  | _, _, done, _ => .ok ()
  | _, _, field name presence _ rest, (slot, slots) => do
    let a ← match slot.or presence.inObject with
      | some a => .ok a
      | none => .error (.missingMember name)
    let b ← rest.complete slots
    return (a, b)

end Fields

/-! ### Reading -/

mutual

/-- Reads a value of the shape. -/
def Shape.read : {α : Type} → Shape α → Reader α
  | _, .text => readString
  | _, .integer range => readInteger range
  | _, .flag => readFlag
  | _, .payload => readPayload
  | _, .choice options name => readChoice options name
  | _, .list item => fun s =>
    withNext s .endsInValue fun c r h =>
      if c = Ascii.openBracket then
        (listItems item.read true r).map (·.after h)
      else .error (misfit .sequence (c :: r))
  | _, .dict item => fun s =>
    withNext s .endsInValue fun c r h =>
      if c = Ascii.openBrace then
        let member (d : Dict _) (key : String) : Reader (Dict _) := fun s =>
          (readMember item.read s).map (·.map (d.insert key ·))
        (foldMembers member true .empty r).map (·.after h)
      else .error (misfit .map (c :: r))
  | _, .nullable inner => fun s =>
    withNext s .endsInValue fun c r h =>
      if c = Ascii.lowerN then
        (dropWord nullTail r).map fun p => (p.map fun _ => none).weaken h
      else (inner.read s).map (·.map some)
  | _, .record name closed fields make _ => fun s =>
    withNext s .endsInValue fun c r h =>
      if c = Ascii.openBrace then do
        let member (slots : _) (key : String) : Reader _ := fun s =>
          match fields.assign slots key s with
          | some result => result
          | none =>
            if closed then .error (.unknownMember key fields.names)
            else (readMember skipValue s).map (·.map fun _ => slots)
        -- What is missing is told before anything about the closing brace.
        let p ← foldMembers member true fields.blank r
        let b ← fields.complete p.value
        return (p.map fun _ => make b).after h
      else if c = Ascii.openBracket then do
        let ⟨b, r₁, h₁⟩ ← fields.inOrder name fields.names.length 0 r
        let ⟨_, r₂, h₂⟩ ← closeList r₁
        return ((Taken.mk (make b) r₂ h₂).weaken (Nat.le_of_lt_succ h₁)).after h
      else .error (misfit (.record name) (c :: r))

/-- Reads the member of the given name into its slot, if there is such a field. -/
def Fields.assign : {β π : Type} → Fields β π → π → String → (s : Octets) →
    Option (Except Fault (Parsed π s.length))
  | _, _, .done, _, _, _ => none
  | _, _, .field name _ shape rest, (slot, slots), key, s =>
    if key = name then
      some (if slot.isSome then .error (.repeatedMember name)
        else (readMember shape.read s).map (·.map fun a => (some a, slots)))
    else (rest.assign slots key s).map (·.map (·.map fun slots' => (slot, slots')))

/-- Reads fields by their order, `taken` of `total` having been read before. -/
def Fields.inOrder : {β π : Type} → Fields β π → (record : String) → (total taken : Nat) →
    (s : Octets) → Except Fault (Parsed β (s.length + 1))
  | _, _, .done, _, _, _, s => .ok (.leaving () s)
  | _, _, .field _ presence shape rest, record, total, taken, s =>
    match nextItem (taken == 0) s with
    | .error f => .error f
    | .ok none =>
      match presence.inList with
      | some a => (rest.inOrder record total (taken + 1) s).map (·.map fun b => (a, b))
      | none => .error (.tooShort taken record total)
    | .ok (some ⟨_, r, _⟩) =>
      match shape.read r with
      | .error f => .error f
      | .ok ⟨a, r', _⟩ =>
        (rest.inOrder record total (taken + 1) r').map fun p =>
          (p.map fun b => (a, b)).weaken (by omega)

end

/-! ### Writing -/

mutual

/-- The document of a value. -/
def Shape.write : {α : Type} → Shape α → α → Document
  | _, .text, s => .text s
  | _, .integer _, i => .integer i.val
  | _, .flag, b => .boolean b
  | _, .payload, p => .verbatim p.text
  | _, .choice _ name, a => .text (name a)
  | _, .list item, xs => .list (xs.map item.write)
  | _, .dict item, d => .object (d.entries.map fun e => (e.1, item.write e.2))
  | _, .nullable inner, x =>
    match x with
    | some a => inner.write a
    | none => .null
  | _, .record _ _ fields _ parts, a => .object (fields.write (parts a))

/-- The members of a record, without those that say nothing. -/
def Fields.write : {β π : Type} → Fields β π → β → List (String × Document)
  | _, _, .done, _ => []
  | _, _, .field name presence shape rest, (a, b) =>
    if presence.hides a then rest.write b else (name, shape.write a) :: rest.write b

end

/-! ### Whole documents -/

/-- Nothing but space is left. -/
def readEnd (s : Octets) : Except Fault Unit :=
  if (skipSpace s).isEmpty then .ok () else .error .trailingCharacters

/-- The value that is all there is to a text. -/
def Shape.readAll {α : Type} (shape : Shape α) (s : Octets) : Except Fault α := do
  let p ← shape.read s
  readEnd p.rest
  return p.value

/-- The payload that is all there is to a text, without the space around it. -/
def Payload.ofText (s : String) : Except Fault Payload := Shape.payload.readAll (Text.octets s)

end FleetPlan.Json
