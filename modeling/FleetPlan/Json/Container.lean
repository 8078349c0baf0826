/-
Lists and objects.

The readers here know the brackets, the commas and the colons, and leave what
stands between them to a reader they are given.  Each loop is split into a step
that finds where the next item begins, or that there is none, and the loop over
it.
-/
import FleetPlan.Json.Literal

namespace FleetPlan.Json

/-! ### Lists, from behind the opening bracket on -/

/--
Finds the next item.  The answer is `none` in front of the closing bracket; only
an item that is not the first has a comma before it.
-/
def nextItem (first : Bool) (s : Octets) :
    Except Fault (Option (Parsed Unit (s.length + 1))) :=
  withNext s .endsInList fun c r h =>
    if c = Ascii.closeBracket then .ok none
    else if first then .ok (some ⟨(), c :: r, by simp only [List.length_cons]; omega⟩)
    else if c = Ascii.comma then
      withNext r .endsInValue fun d r' h' =>
        if d = Ascii.closeBracket then .error .trailingComma
        else .ok (some ⟨(), d :: r', by simp only [List.length_cons]; omega⟩)
    else .error .listSeparatorExpected

/-- The closing bracket. -/
def closeList (s : Octets) : Except Fault (Parsed Unit s.length) :=
  withNext s .endsInList fun c r h =>
    if c = Ascii.closeBracket then .ok ⟨(), r, h⟩
    else if c = Ascii.comma then
      match skipSpace r with
      | d :: _ => .error (if d = Ascii.closeBracket then .trailingComma else .trailingCharacters)
      | [] => .error .trailingCharacters
    else .error .trailingCharacters

/-- All items up to the closing bracket. -/
def listItems {α : Type} (item : Reader α) (first : Bool) (s : Octets) :
    Except Fault (Parsed (List α) s.length) :=
  match nextItem first s with
  | .error f => .error f
  | .ok none => (closeList s).map (·.map fun _ => [])
  | .ok (some ⟨_, r, _⟩) =>
    match item r with
    | .error f => .error f
    | .ok ⟨a, r', _⟩ =>
      (listItems item false r').map fun p => (p.map (a :: ·)).weaken (by omega)
termination_by s.length
decreasing_by omega

/-! ### Objects, from behind the opening brace on -/

/-- Reads the next name, or answers `none` in front of the closing brace. -/
def nextName (first : Bool) (s : Octets) :
    Except Fault (Option (Parsed String s.length)) :=
  withNext s .endsInObject fun c r h =>
    if c = Ascii.closeBrace then .ok none
    else if first then
      if c = Ascii.quote then (readText r).map fun p => some (p.weaken (by omega))
      else .error .keyExpected
    else if c = Ascii.comma then
      withNext r .endsInValue fun d r' h' =>
        if d = Ascii.quote then (readText r').map fun p => some (p.weaken (by omega))
        else if d = Ascii.closeBrace then .error .trailingComma
        else .error .keyExpected
    else .error .objectSeparatorExpected

/-- The colon between a name and its value. -/
def readColon (s : Octets) : Except Fault (Parsed Unit s.length) :=
  withNext s .endsInObject fun c r h =>
    if c = Ascii.colon then .ok ⟨(), r, h⟩ else .error .colonExpected

/-- The colon and the value behind it. -/
def readMember {α : Type} (value : Reader α) : Reader α := fun s =>
  match readColon s with
  | .error f => .error f
  | .ok ⟨_, r, h⟩ => (value r).map (·.after h)

/-- The closing brace. -/
def closeObject (s : Octets) : Except Fault (Parsed Unit s.length) :=
  withNext s .endsInObject fun c r h =>
    if c = Ascii.closeBrace then .ok ⟨(), r, h⟩
    else if c = Ascii.comma then .error .trailingComma
    else .error .trailingCharacters

/--
All members up to the closing brace.  `member` is told what was gathered so far
and the name, and reads on from behind the name.
-/
def foldMembers {σ : Type} (member : σ → String → Reader σ) (first : Bool) (gathered : σ)
    (s : Octets) : Except Fault (Parsed σ s.length) :=
  match nextName first s with
  | .error f => .error f
  | .ok none => (closeObject s).map (·.map fun _ => gathered)
  | .ok (some ⟨name, r, _⟩) =>
    match member gathered name r with
    | .error f => .error f
    | .ok ⟨gathered', r', _⟩ =>
      (foldMembers member false gathered' r').map (·.weaken (by omega))
termination_by s.length
decreasing_by omega

end FleetPlan.Json
