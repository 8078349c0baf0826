/-
Text for a terminal.

Where colours are on, emphasised text stands between an escape sequence that
opens the emphasis and one that ends all emphasis.  Where they are off the text
is left alone.  A column is filled up inside its emphasis.
-/
import FleetPlan.Path

namespace FleetPlan

/-- How text is made to stand out. -/
inductive Emphasis where
  | bold
  | dimmed
  | red
  | green
  | yellow
  | blue
  | cyan
  | grey
  deriving DecidableEq, Repr

namespace Emphasis

/-- The number that stands for the emphasis in an escape sequence. -/
def code : Emphasis → Nat
  | bold => 1
  | dimmed => 2
  | red => 31
  | green => 32
  | yellow => 33
  | blue => 34
  | cyan => 36
  | grey => 90

end Emphasis

namespace Text

/-- The text followed by blanks up to a width, which counts characters. -/
def padRight (width : Nat) (s : String) : String :=
  s ++ String.ofList (List.replicate (width - s.length) ' ')

/-- The text behind blanks up to a width, which counts characters. -/
def padLeft (width : Nat) (s : String) : String :=
  String.ofList (List.replicate (width - s.length) ' ') ++ s

/--
An id of at most `width` characters, the end giving way to three dots; the dots
are always all there.
-/
def shortId (width : Nat) (id : String) : String :=
  if id.length ≤ width then id
  else String.ofList (id.toList.take (width - 3)) ++ "..."

end Text

/-- What is known of the terminal. -/
structure Terminal where
  coloured : Bool
  deriving DecidableEq, Repr

namespace Terminal

/-- Ends all emphasis. -/
def ending : String := "\x1b[0m"

/-- Opens an emphasis. -/
def opening (es : List Emphasis) : String :=
  "\x1b[" ++ ";".intercalate (es.map fun e => toString e.code) ++ "m"

/-- Emphasised text in a column; text that ends emphasis itself is emphasised again behind that. -/
def column (t : Terminal) (es : List Emphasis) (width : Nat) (s : String) : String :=
  if t.coloured then
    opening es ++ Text.padRight width (s.replace ending (ending ++ opening es)) ++ ending
  else Text.padRight width s

/-- Emphasised text. -/
def paint (t : Terminal) (es : List Emphasis) (s : String) : String := t.column es 0 s

end Terminal

namespace Environment

/-- Whether a variable is set and asks for something with any value but a zero. -/
def asks (env : Environment) (name : String) : Bool := (env.get? name).any (· != "0")

/-- The terminal for what commands tell. -/
def terminal (env : Environment) : Terminal := ⟨env.asks "CLICOLOR_FORCE"⟩

/-- The terminal for log records, on which colours can also be refused. -/
def logTerminal (env : Environment) : Terminal :=
  ⟨env.asks "CLICOLOR_FORCE" && ((env.get? "NO_COLOR").getD "").isEmpty⟩

end Environment

end FleetPlan
