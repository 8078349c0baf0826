/-
Paths inside a project.

A path in step inputs is relative and stays below the directory it is taken from.
Backslashes count as slashes, repeated slashes as one, and no part may be a dot
or two; the directory itself is a lone dot.
-/
import FleetPlan.Text.Blank
import FleetPlan.Text.Pieces
import FleetPlan.Text.Quoted

namespace FleetPlan

/-- Why a path is refused. -/
inductive PathFault where
  | empty
  | notRelative (path : String)
  | dotSegment (path : String)
  deriving DecidableEq, Repr

namespace PathFault

def message : PathFault → String
  | empty => "path is empty"
  | notRelative path => "path must be relative: " ++ Text.quoted path
  | dotSegment path => "path must not contain '.' or '..' segments: " ++ Text.quoted path

end PathFault

namespace RelativePath

/-- Whether a colon is followed by a slash somewhere. -/
def hasScheme : List Char → Bool
  | ':' :: '/' :: _ => true
  | _ :: rest => hasScheme rest
  | [] => false

/-- The characters with slashes only and without blanks at the ends. -/
def unified (raw : String) : List Char :=
  Text.trimChars (raw.toList.map fun c => if c = '\\' then '/' else c)

/-- The parts between the slashes that are not empty. -/
def segments (path : List Char) : List (List Char) :=
  (Text.pieces '/' path).filter (!·.isEmpty)

def isDotSegment (segment : List Char) : Bool := segment = ['.'] || segment = ['.', '.']

/-- The path in its one form, or why it is refused. -/
def normalize (raw : String) : Except PathFault String :=
  let path := unified raw
  if path.isEmpty then .error .empty
  else if path.head? = some '/' || path.head? = some '~' || hasScheme path then
    .error (.notRelative (String.ofList path))
  else if path = ['.'] then .ok "."
  else if (segments path).any isDotSegment then .error (.dotSegment (String.ofList path))
  else .ok (String.ofList (Text.unite '/' (segments path)))

end RelativePath

end FleetPlan
