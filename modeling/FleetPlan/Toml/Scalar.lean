/-
Numbers, dates and words of a configuration.

Each is one token, a run of characters up to the next line end, comment or mark
of structure; blanks inside belong to it, since a date and a time of day may stand
apart.  How a token begins tells what it is meant to be, and each kind has its own
rules for the rest.  The value is read for integers and for the two words.  Numbers
with a fraction or an exponent and moments of time are recognised and kept as they
are written, since no setting takes one.  A token may also pass for an integer and
have no value: that matters only to a setting.
-/
import FleetPlan.Toml.Text

namespace FleetPlan.Toml

/-- A token by what it is. -/
inductive Scalar where
  | integer (value : Int)
  /-- Passes for an integer, but its digits are none or not all digits. -/
  | valueless (written : String)
  | boolean (value : Bool)
  /-- A number with a fraction or an exponent, or one that is no number. -/
  | fractional (written : String)
  /-- A date, a time of day, or both. -/
  | moment (written : String)
  deriving DecidableEq, Repr

namespace Scalar

/-! ### Digits -/

/-- The value of a digit to this base. -/
def digit? (base : Nat) (c : Char) : Option Nat := (hexDigit? c).filter (· < base)

def isDigitOf (base : Nat) (c : Char) : Bool := (digit? base c).isSome

def numberOf (base : Nat) (digits : List Nat) : Nat := digits.foldl (fun n d => n * base + d) 0

/-- Whether every underscore stands behind a digit, or a sign at the front, and before a digit. -/
def spacesDigits (isDigit : Char → Bool) : (mayFollow : Bool) → List Char → Bool
  | _, [] => true
  | mayFollow, c :: cs =>
    if c = '_' then mayFollow && cs.head?.any isDigit && spacesDigits isDigit false cs
    else spacesDigits isDigit (isDigit c) cs

/-- A digit to base ten or an underscore. -/
def isSpacedDigit (c : Char) : Bool := c.isDigit || c = '_'

/-- Whether the number in front has a zero that says nothing. -/
def hasIdleZero (cs : List Char) : Bool :=
  cs.head? = some '0' && 1 < ((cs.takeWhile isSpacedDigit).filter Char.isDigit).length

/-- A number's sign, if it has one, and the characters behind it. -/
def splitSign : List Char → Option Char × List Char
  | [] => (none, [])
  | c :: cs => if c = '+' || c = '-' then (some c, cs) else (none, c :: cs)

/-! ### Integers -/

/-- The integer with this sign and these digits, underscores not counting. -/
def ofDigits (sign : Option Char) (base : Nat) (cs : List Char) : Scalar :=
  let digits := cs.filter (· ≠ '_')
  if digits.isEmpty || !digits.all (isDigitOf base) then
    .valueless (String.ofList (sign.toList ++ cs))
  else
    let n : Int := numberOf base (digits.filterMap (digit? base))
    .integer (if sign = some '-' then -n else n)

/-- The base that a number without sign may name in front of its digits, and the digits. -/
def splitBase? : List Char → Option (Nat × List Char)
  | '0' :: 'x' :: cs => some (16, cs)
  | '0' :: 'o' :: cs => some (8, cs)
  | '0' :: 'b' :: cs => some (2, cs)
  | _ => none

/-- The integer of a base that is named; there need not be a digit. -/
def ofBase? (base : Nat) (cs : List Char) : Option Scalar :=
  if cs.all (fun c => c = '_' || isDigitOf base c) && spacesDigits (isDigitOf base) false cs then
    some (ofDigits none base cs)
  else none

/-! ### Numbers with a fraction or an exponent -/

def isExponentMark (c : Char) : Bool := c = 'e' || c = 'E'

/-- What follows digits, underscores among them not counting. -/
def behindDigits? (cs : List Char) : Option (List Char) :=
  if (cs.takeWhile isSpacedDigit).any Char.isDigit then some (cs.dropWhile isSpacedDigit)
  else none

/-- What follows a fraction, if there is one. -/
def behindFraction? : List Char → Option (List Char)
  | [] => some []
  | c :: cs => if c = '.' then behindDigits? cs else some (c :: cs)

/-- What follows an exponent, if there is one. -/
def behindExponent? : List Char → Option (List Char)
  | [] => some []
  | c :: cs => if isExponentMark c then behindDigits? (splitSign cs).2 else some (c :: cs)

/-- Whether this is a whole number with perhaps a fraction and an exponent behind it. -/
def isScientific (cs : List Char) : Bool :=
  !hasIdleZero cs &&
    ((behindDigits? cs).bind behindFraction?).bind behindExponent? = some []

/-- Whether this is infinity or no number. -/
def isLimit (cs : List Char) : Bool := cs = "inf".toList || cs = "nan".toList

/-! ### Moments -/

/-- What follows a number of exactly so many digits, and the number. -/
def number? (digits : Nat) (cs : List Char) : Option (Nat × List Char) :=
  let ds := cs.take digits
  if ds.length = digits && ds.all Char.isDigit then
    some (numberOf 10 (ds.filterMap hexDigit?), cs.drop digits)
  else none

/-- What follows a character that has to stand here. -/
def behind? (c : Char) : List Char → Option (List Char)
  | [] => none
  | d :: rest => if d = c then some rest else none

def isLeap (year : Nat) : Bool := year % 4 = 0 && (year % 100 ≠ 0 || year % 400 = 0)

def daysIn (year month : Nat) : Nat :=
  if month = 2 then if isLeap year then 29 else 28
  else if [4, 6, 9, 11].contains month then 30
  else 31

/-- What follows a date. -/
def behindDate? (cs : List Char) : Option (List Char) := do
  let (year, cs) ← number? 4 cs
  let (month, cs) ← number? 2 (← behind? '-' cs)
  let (day, cs) ← number? 2 (← behind? '-' cs)
  if 1 ≤ month && month ≤ 12 && 1 ≤ day && day ≤ daysIn year month then some cs else none

/-- What follows hours and minutes. -/
def behindMinutes? (cs : List Char) : Option (List Char) := do
  let (hour, cs) ← number? 2 cs
  let (minute, cs) ← number? 2 (← behind? ':' cs)
  if hour ≤ 23 && minute ≤ 59 then some cs else none

/-- What follows the seconds, which may be left out, and their fraction. -/
def behindSeconds? : List Char → Option (List Char)
  | ':' :: cs => do
    let (second, cs) ← number? 2 cs
    if 60 < second then none
    else match cs with
      | '.' :: cs =>
        if (cs.takeWhile Char.isDigit).isEmpty then none else some (cs.dropWhile Char.isDigit)
      | cs => some cs
  | cs => some cs

def behindTime? (cs : List Char) : Option (List Char) := (behindMinutes? cs).bind behindSeconds?

/-- Whether this is nothing, or how far the clock is from universal time. -/
def isOffset : List Char → Bool
  | [] => true
  | [c] => c = 'Z' || c = 'z'
  | c :: cs => (c = '+' || c = '-') && behindMinutes? cs = some []

/-- A date and a time of day stand together by one of these. -/
def joinsTime (c : Char) : Bool := c = 'T' || c = 't' || c = ' '

def isMoment (cs : List Char) : Bool :=
  match behindDate? cs with
  | none => behindTime? cs = some []
  | some [] => true
  | some (c :: cs) => joinsTime c && (behindTime? cs).any isOffset

/-! ### Tokens -/

/--
A number to base ten, or a moment.  What stands behind the first digits decides:
a dash or a colon makes a moment, a point or an exponent mark anywhere makes a
fractional number, an underscore an integer.  Of an integer with underscores only
the characters beside them are looked at, and no space may stand in it.
-/
def ofDecimal? (sign : Option Char) (cs : List Char) : Option Scalar :=
  let written := String.ofList (sign.toList ++ cs)
  match cs.dropWhile Char.isDigit with
  | [] => if cs.isEmpty || hasIdleZero cs then none else some (ofDigits sign 10 cs)
  | c :: rest =>
    if c = '-' || c = ':' then
      if sign.isNone && isMoment cs then some (.moment written) else none
    else if (c :: rest).any fun d => d = '.' || isExponentMark d then
      if isScientific cs && spacesDigits Char.isDigit sign.isSome cs then
        some (.fractional written)
      else none
    else if c = '_' && cs.head? ≠ some '0' && !cs.contains ' ' &&
        spacesDigits (isDigitOf 16) sign.isSome cs then
      some (ofDigits sign 10 cs)
    else none

/-- What a token is, if it is anything. -/
def ofToken? (token : List Char) : Option Scalar :=
  if token = "true".toList then some (.boolean true)
  else if token = "false".toList then some (.boolean false)
  else match splitBase? token, splitSign token with
    | some (base, cs), _ => ofBase? base cs
    | none, (sign, cs) =>
      if isLimit cs then some (.fractional (String.ofList token)) else ofDecimal? sign cs

/-- Whether a token may go on with this character. -/
def isTokenChar (c : Char) : Bool := !"\r\n#,=[]\x7b\x7d".toList.contains c

/-- The token at the front, the blanks behind it not belonging to it. -/
def readToken (s : List Char) : Option (Parsed (List Char) s.length) :=
  match h : s.takeWhile isTokenChar with
  | [] => none
  | c :: cs =>
    let token := ((c :: cs).reverse.dropWhile isBlank).reverse
    some ⟨token, s.dropWhile isTokenChar, Taken.length_dropWhile_lt h⟩

/-- The token at the front as what it is. -/
def read (s : List Char) : Option (Parsed Scalar s.length) := do
  let p ← readToken s
  let scalar ← ofToken? p.value
  return p.map fun _ => scalar

end Scalar

end FleetPlan.Toml
