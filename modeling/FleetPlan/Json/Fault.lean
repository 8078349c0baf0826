/-
What can be wrong with a document.

A fault is either one of syntax, which any reader finds at the same place, or one
of content, when the text is well formed so far but a place holds something its
schema does not want.  `Fault.message` is the one place that words them.
-/
import FleetPlan.Text.Quoted
import FleetPlan.Decimal.Shortest
import FleetPlan.Json.Integer

namespace FleetPlan.Json

/-- What stands at a place, as far as a message tells. -/
inductive Found where
  | null
  | boolean (value : Bool)
  | integer (value : Int)
  | double (value : Decimal.Double)
  | text (value : String)
  | sequence
  | map
  deriving DecidableEq, Repr

namespace Found

def describe : Found → String
  | null => "null"
  | boolean b => "boolean `" ++ (if b then "true" else "false") ++ "`"
  | integer i => "integer `" ++ toString i ++ "`"
  | double d => "floating point `" ++ d.text ++ "`"
  | text s => "string " ++ Text.quoted s
  | sequence => "sequence"
  | map => "map"

end Found

/-- What a place asks for. -/
inductive Wanted where
  | text
  | boolean
  | sequence
  | map
  | record (name : String)
  /-- The null that may stand beside the name of a choice. -/
  | unit
  | integer (range : IntRange)
  deriving DecidableEq, Repr

namespace Wanted

def describe : Wanted → String
  | text => "a string"
  | boolean => "a boolean"
  | sequence => "a sequence"
  | map => "a map"
  | record name => "struct " ++ name
  | unit => "unit"
  | integer range => range.describe

end Wanted

/-- The names that would have been right, each in backticks. -/
def alternatives : List String → String
  | [] => "there are none"
  | [a] => "expected `" ++ a ++ "`"
  | [a, b] => "expected `" ++ a ++ "` or `" ++ b ++ "`"
  | names => "expected one of " ++ ", ".intercalate (names.map fun n => "`" ++ n ++ "`")

/--
The faults, in four groups: the text ends inside something, something else should
stand here, a scalar is malformed, the content is not what the place wants.
-/
inductive Fault where
  | endsInValue
  | endsInList
  | endsInObject
  | endsInText
  | valueExpected
  | wordExpected
  | colonExpected
  | listSeparatorExpected
  | objectSeparatorExpected
  | keyExpected
  | trailingComma
  | trailingCharacters
  | badNumber
  | numberTooLarge
  | badEscape
  | brokenSurrogatePair
  | loneSurrogate
  | badEncoding
  | controlCharacter
  | tooDeep
  | mismatch (found : Found) (wanted : Wanted)
  | outOfRange (value : Int) (range : IntRange)
  | tooShort (length : Nat) (record : String) (fields : Nat)
  | unknownMember (name : String) (known : List String)
  | repeatedMember (name : String)
  | missingMember (name : String)
  | unknownChoice (name : String) (known : List String)
  deriving DecidableEq, Repr

namespace Fault

def message : Fault → String
  | endsInValue => "EOF while parsing a value"
  | endsInList => "EOF while parsing a list"
  | endsInObject => "EOF while parsing an object"
  | endsInText => "EOF while parsing a string"
  | valueExpected => "expected value"
  | wordExpected => "expected ident"
  | colonExpected => "expected `:`"
  | listSeparatorExpected => "expected `,` or `]`"
  | objectSeparatorExpected => "expected `,` or `\x7d`"
  | keyExpected => "key must be a string"
  | trailingComma => "trailing comma"
  | trailingCharacters => "trailing characters"
  | badNumber => "invalid number"
  | numberTooLarge => "number out of range"
  | badEscape => "invalid escape"
  | brokenSurrogatePair => "unexpected end of hex escape"
  | loneSurrogate => "lone leading surrogate in hex escape"
  | badEncoding => "invalid unicode code point"
  | controlCharacter => "control character (\\u0000-\\u001F) found while parsing a string"
  | tooDeep => "recursion limit exceeded"
  | mismatch found wanted =>
    "invalid type: " ++ found.describe ++ ", expected " ++ wanted.describe
  | outOfRange value range =>
    "invalid value: integer `" ++ toString value ++ "`, expected " ++ range.describe
  | tooShort length record fields =>
    "invalid length " ++ toString length ++ ", expected struct " ++ record ++ " with " ++
      toString fields ++ (if fields = 1 then " element" else " elements")
  | unknownMember name known => "unknown field `" ++ name ++ "`, " ++ alternatives known
  | repeatedMember name => "duplicate field `" ++ name ++ "`"
  | missingMember name => "missing field `" ++ name ++ "`"
  | unknownChoice name known => "unknown variant `" ++ name ++ "`, " ++ alternatives known

/-- Whether a document was refused for a member its schema does not have. -/
def isUnknownMember : Fault → Bool
  | unknownMember .. => true
  | _ => false

end Fault

end FleetPlan.Json
