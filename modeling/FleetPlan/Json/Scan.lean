/-
Values that are only scanned.

A value that is kept as written, or that nobody asked for, is checked for its
form and not decoded: numbers may have any size, surrogates need not pair, names
may repeat, and containers may nest to any depth.  The scanner therefore keeps
the open containers in a list of its own, one `Frame` each, and works through the
octets in a single pass.
-/
import FleetPlan.Json.Literal
import FleetPlan.Json.Number

namespace FleetPlan.Json

/-- A value kept exactly as it was written. -/
structure Payload where
  text : String
  deriving DecidableEq, Repr, Inhabited

namespace Scan

/-- A container that has not been closed yet. -/
inductive Frame where
  | list
  | object
  deriving DecidableEq, Repr

namespace Frame

def closer : Frame → UInt8
  | list => Ascii.closeBracket
  | object => Ascii.closeBrace

/-- The fault when the text ends inside the container. -/
def ends : Frame → Fault
  | list => .endsInList
  | object => .endsInObject

/-- The fault when an item is followed by neither a comma nor the closing bracket. -/
def separatorExpected : Frame → Fault
  | list => .listSeparatorExpected
  | object => .objectSeparatorExpected

/-- The container that an octet opens. -/
def opened? (c : UInt8) : Option Frame :=
  if c = Ascii.openBracket then some list
  else if c = Ascii.openBrace then some object
  else none

end Frame

/-- A scalar from its first octet on. -/
def skipScalar : (s : Octets) → Except Fault (Parsed Unit s.length)
  | [] => .error .endsInValue
  | c :: r =>
    if c = Ascii.quote then (skipText r).map (·.grow)
    else if c = Ascii.lowerN then dropWord nullTail r
    else if c = Ascii.lowerT then dropWord trueTail r
    else if c = Ascii.lowerF then dropWord falseTail r
    else if c = Ascii.minus || Ascii.isDigit c then
      (Numeral.read .badNumber (c :: r)).map (·.map fun _ => ())
    else .error .valueExpected

/-- Brings an item to the start of its value: past the name and the colon in an object. -/
def beginItem : Frame → (s : Octets) → Except Fault (Parsed Unit (s.length + 1))
  | .list, s => .ok (.leaving () s)
  | .object, s =>
    withNext s .endsInObject fun c r _ =>
      if c ≠ Ascii.quote then .error .keyExpected
      else do
        let ⟨_, r', _⟩ ← skipText r
        withNext r' .endsInObject fun d r'' _ =>
          if d ≠ Ascii.colon then .error .colonExpected else .ok ⟨(), r'', by omega⟩

mutual

/--
Scans a value and then everything that closes the open containers.  The bound is
the length at which the scan began.
-/
def skipValue (bound : Nat) (stack : List Frame) (s : Octets) (hs : s.length ≤ bound) :
    Except Fault (Parsed Unit bound) :=
  withNext s .endsInValue fun c r _ =>
    match Frame.opened? c with
    | none =>
      match skipScalar (c :: r) with
      | .error f => .error f
      | .ok ⟨_, r', h'⟩ =>
        have : r'.length < r.length + 1 := h'
        skipAfter bound stack r' (by omega)
    | some frame =>
      withNext r frame.ends fun d r' _ =>
        if d = frame.closer then skipAfter bound stack r' (by omega)
        else match beginItem frame (d :: r') with
          | .error f => .error f
          | .ok ⟨_, r'', h''⟩ =>
            have : r''.length < r'.length + 1 + 1 := h''
            skipValue bound (frame :: stack) r'' (by omega)
termination_by s.length

/-- Goes on behind a value. -/
def skipAfter (bound : Nat) (stack : List Frame) (s : Octets) (hs : s.length < bound) :
    Except Fault (Parsed Unit bound) :=
  match stack with
  | [] => .ok ⟨(), s, hs⟩
  | frame :: outer =>
    withNext s frame.ends fun c r _ =>
      if c = Ascii.comma then
        match beginItem frame r with
        | .error f => .error f
        | .ok ⟨_, r', _⟩ => skipValue bound (frame :: outer) r' (by omega)
      else if c = frame.closer then skipAfter bound outer r (by omega)
      else .error frame.separatorExpected
termination_by s.length

end

end Scan

/-- Passes over a value without looking at what it says. -/
def skipValue : Reader Unit := fun s => Scan.skipValue s.length [] s (Nat.le_refl _)

/-- Keeps a value as it is written, without the space around it. -/
def readPayload : Reader Payload := fun s =>
  let start := skipSpace s
  match skipValue start with
  | .error f => .error f
  | .ok ⟨_, r, h⟩ =>
    match Text.ofOctets? (start.take (start.length - r.length)) with
    | some text => .ok ⟨⟨text⟩, r, Nat.lt_of_lt_of_le h (length_skipSpace_le s)⟩
    | none => .error .badEncoding

end FleetPlan.Json
