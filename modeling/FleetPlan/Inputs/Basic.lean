/-
Typed step inputs.

The inputs of six actions have a form of their own.  They are decoded strictly,
brought into their normal form and then checked; `StepInputs` is what each form
provides, and `decodeInputs` and `encodeInputs` are the same for all.
-/
import FleetPlan.Codec
import FleetPlan.Inputs.RelativePath

namespace FleetPlan

open Json

/-- What is wrong with a field. -/
inductive FieldFault where
  | required
  /-- A choice that has no default. -/
  | requiredExplicitly
  | emptyEntry
  | notPositive
  | negative
  | zero
  | path (fault : PathFault)
  | unknownAlgorithm
  | malformedHash (hash : String)
  /-- Of two fields exactly one has to be given. -/
  | notExactlyOne (first second : String)
  deriving DecidableEq, Repr

/-- The one algorithm of expected hashes. -/
def hashAlgorithm : String := "sha256"

namespace FieldFault

def message : FieldFault → String
  | required => "is required"
  | requiredExplicitly => "is required (set it explicitly)"
  | emptyEntry => "contains empty value"
  | notPositive => "must be > 0 if present"
  | negative => "must be >= 0 if present"
  | zero => "must be > 0"
  | path fault => fault.message
  | unknownAlgorithm => "must be " ++ Text.quoted hashAlgorithm
  | malformedHash hash => "sha256 hash must be 64 lowercase hex chars: " ++ Text.quoted hash
  | notExactlyOne first second =>
    "exactly one of " ++ first ++ " or " ++ second ++ " must be provided"

end FieldFault

/-- Why inputs are refused. -/
inductive InputsError where
  | missing (action : Action)
  | decode (error : DecodeError)
  | invalid (field : String) (fault : FieldFault)
  deriving DecidableEq, Repr

namespace InputsError

def message : InputsError → String
  | missing action => action.name ++ " inputs are missing"
  | decode e => e.message
  | invalid field fault => field ++ ": " ++ fault.message

end InputsError

/-- A form of inputs. -/
class StepInputs (α : Type) where
  action : Action
  shape : Shape α
  normalize : α → Except InputsError α
  validate : α → Except InputsError Unit

section

variable {α : Type} [StepInputs α]

/-- Brings inputs into their normal form and checks them. -/
def settleInputs (inputs : α) : Except InputsError α := do
  let inputs ← StepInputs.normalize inputs
  StepInputs.validate inputs
  return inputs

/-- The inputs that a payload holds. -/
def decodeInputs (α : Type) [StepInputs α] (payload : Option Payload) : Except InputsError α :=
  match payload with
  | none => .error (.missing (StepInputs.action α))
  | some p =>
    match decodeStrict (StepInputs.shape (α := α)) (Text.octets p.text) with
    | .error cause => .error (.decode ⟨"step inputs", "", cause⟩)
    | .ok inputs => settleInputs inputs

/-- The payload that holds the inputs. -/
def encodeInputs (inputs : α) : Except InputsError Payload := do
  let inputs ← settleInputs inputs
  return ⟨(StepInputs.shape.write inputs).compact⟩

end

/-! ### Normal forms of fields -/

/-- The texts of a list without blanks at their ends, in increasing order. -/
def normalList (items : List String) : List String :=
  (items.map Text.trim).mergeSort fun a b => decide (a ≤ b)

/-- A name with a value. -/
structure KeyValue where
  key : String
  value : String
  deriving DecidableEq, Repr, Inhabited

namespace KeyValue

def trim (p : KeyValue) : KeyValue := ⟨Text.trim p.key, Text.trim p.value⟩

def shape : Shape KeyValue :=
  .record "KeyValue" true
    (.field "key" .required .text <|
     .field "value" .required .text .done)
    (fun (key, value, ()) => ⟨key, value⟩)
    (fun p => (p.key, p.value, ()))

end KeyValue

/-- The pairs without blanks at the ends of their texts, by key, equal keys in their order. -/
def normalPairs (pairs : List KeyValue) : List KeyValue :=
  (pairs.map KeyValue.trim).mergeSort fun a b => decide (a.key ≤ b.key)

/-- A path field in its normal form. -/
def normalPath (field raw : String) : Except InputsError String :=
  (RelativePath.normalize raw).mapError fun fault => .invalid field (.path fault)

/-! ### Checks of fields -/

/-- Demands something of a field. -/
def demand (field : String) (holds : Bool) (fault : FieldFault) : Except InputsError Unit :=
  if holds then .ok () else .error (.invalid field fault)

def requireText (field value : String) : Except InputsError Unit :=
  demand field (!value.isEmpty) .required

def requireEntries (field : String) (items : List String) : Except InputsError Unit :=
  demand field (!items.any (·.isEmpty)) .emptyEntry

def requireKeys (field : String) (pairs : List KeyValue) : Except InputsError Unit :=
  demand (field ++ ".key") (!pairs.any (·.key.isEmpty)) .required

/-- Refuses a negative number; the message asks for more than the check does. -/
def requirePositive (field : String) (n : Option (IntIn .signed64)) : Except InputsError Unit :=
  demand field (!n.any (·.val < 0)) .notPositive

def requireExactlyOne (field : String) (hasFirst hasSecond : Bool) (first second : String) :
    Except InputsError Unit :=
  demand field (hasFirst != hasSecond) (.notExactlyOne first second)

/-! ### Expected hashes -/

def isLowerHexDigit (c : Char) : Bool := ('0' ≤ c && c ≤ '9') || ('a' ≤ c && c ≤ 'f')

/-- Whether the text has the form of a hash. -/
def isHash (s : String) : Bool := s.toList.length == 64 && s.toList.all isLowerHexDigit

/-- An expected hash is not given at all, or with its algorithm and in its form. -/
def requireHash (algorithm hash : String) : Except InputsError Unit :=
  if algorithm.isEmpty && hash.isEmpty then .ok ()
  else do
    demand "expected_compose_hash_alg" (algorithm == hashAlgorithm) .unknownAlgorithm
    demand "expected_compose_hash" (isHash hash) (.malformedHash hash)

end FleetPlan
