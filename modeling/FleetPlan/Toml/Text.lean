/-
Strings and keys of a configuration.

A basic string stands in double quotes and has escapes, a literal string stands
in single quotes and has none, and either may stand in three quotes and then run
over several lines.
-/
import FleetPlan.Toml.Reader

namespace FleetPlan.Toml

/-! ### Escapes -/

/-- The value of a digit to base sixteen. -/
def hexDigit? (c : Char) : Option Nat :=
  if '0' ≤ c && c ≤ '9' then some (c.toNat - '0'.toNat)
  else if 'a' ≤ c && c ≤ 'f' then some (c.toNat - 'a'.toNat + 10)
  else if 'A' ≤ c && c ≤ 'F' then some (c.toNat - 'A'.toNat + 10)
  else none

/-- A number of exactly so many digits to base sixteen, behind the digits of `high`. -/
def readHex : (digits high : Nat) → (s : List Char) → Option (Parsed Nat (s.length + 1))
  | 0, high, s => some (.leaving high s)
  | _ + 1, _, [] => none
  | digits + 1, high, c :: r =>
    match hexDigit? c with
    | some d => (readHex digits (high * 16 + d) r).map (·.grow)
    | none => none

/-- The character with this code point, if there is one. -/
def charOf? (n : Nat) : Option Char :=
  if h : n.isValidChar then some (Char.ofNatAux n h) else none

/-- The character that an escape of one letter stands for. -/
def shortEscape? (c : Char) : Option Char :=
  if c = 'b' then some '\x08'
  else if c = 't' then some '\t'
  else if c = 'n' then some '\n'
  else if c = 'f' then some '\x0c'
  else if c = 'r' then some '\r'
  else if c = 'e' then some '\x1b'
  else if c = '"' then some '"'
  else if c = '\\' then some '\\'
  else none

/-- How many digits follow the letter of an escape by number. -/
def codeEscape? (c : Char) : Option Nat :=
  if c = 'x' then some 2
  else if c = 'u' then some 4
  else if c = 'U' then some 8
  else none

/-- An escape from behind its backslash on. -/
def readEscape : Reader Char
  | [] => none
  | c :: r =>
    match shortEscape? c, codeEscape? c with
    | some d, _ => some (.leaving d r)
    | none, some digits => do
      let ⟨n, r', h⟩ ← readHex digits 0 r
      let d ← charOf? n
      some ⟨d, r', h⟩
    | none, none => none

/-! ### Strings of one line, from behind the opening quote on -/

def readBasic : Reader (List Char)
  | [] => none
  | c :: r =>
    if c = '"' then some (.leaving [] r)
    else if c = '\\' then
      match readEscape r with
      | none => none
      | some ⟨d, r', h⟩ =>
        (readBasic r').map fun p => ((p.map (d :: ·)).after h).grow
    else if isPlain c then (readBasic r).map fun p => (p.map (c :: ·)).grow
    else none
termination_by s => s.length

def readLiteral : Reader (List Char)
  | [] => none
  | c :: r =>
    if c = '\'' then some (.leaving [] r)
    else if isPlain c then (readLiteral r).map fun p => (p.map (c :: ·)).grow
    else none

/-! ### Strings of several lines, from behind the three opening quotes on -/

/-- A line end right behind the opening quotes does not count. -/
def dropFirstLineEnd : List Char → List Char
  | '\n' :: r => r
  | '\r' :: '\n' :: r => r
  | s => s

theorem length_dropFirstLineEnd_le (s : List Char) :
    (dropFirstLineEnd s).length ≤ s.length := by
  unfold dropFirstLineEnd
  split
  · simp
  · simp only [List.length_cons]; omega
  · exact Nat.le_refl _

/-- Whether a backslash in front of these characters joins the line with the next one. -/
def joinsLines (s : List Char) : Bool :=
  match skipBlanks s with
  | '\n' :: _ => true
  | '\r' :: '\n' :: _ => true
  | _ => false

/--
A string in three quotes; only between double quotes are there escapes.  Three to
five quotes end it, all but the last three of them belonging to it.
-/
def readLong (quote : Char) : Reader (List Char)
  | [] => none
  | c :: r =>
    have hr := Taken.length_dropWhile_le (· = quote) r
    if c = quote then
      let run := 1 + (r.takeWhile (· = quote)).length
      if run < 3 then
        (readLong quote (r.dropWhile (· = quote))).map fun p =>
          ((p.map (List.replicate run quote ++ ·)).weaken hr).grow
      else if run ≤ 5 then
        some ((Taken.leaving (List.replicate (run - 3) quote) (r.dropWhile (· = quote))).weaken
          (Nat.succ_le_succ hr))
      else none
    else if c = '\\' && quote = '"' then
      if joinsLines r then
        have h := (skipLines r).2
        (readLong quote (skipLines r).1).map fun p => (p.weaken h).grow
      else match readEscape r with
        | none => none
        | some ⟨d, r', h⟩ =>
          (readLong quote r').map fun p => ((p.map (d :: ·)).after h).grow
    else if isPlain c || c = '\n' || (c = '\r' && r.head? = some '\n') then
      (readLong quote r).map fun p => (p.map (c :: ·)).grow
    else none
termination_by s => s.length
decreasing_by all_goals (simp only [List.length_cons]; omega)

/-! ### Any string, from its first quote on -/

def readString : Reader String
  | '"' :: '"' :: '"' :: r =>
    have h := length_dropFirstLineEnd_le r
    (readLong '"' (dropFirstLineEnd r)).map fun p =>
      ((p.map String.ofList).weaken h).grow.grow.grow
  | '\'' :: '\'' :: '\'' :: r =>
    have h := length_dropFirstLineEnd_le r
    (readLong '\'' (dropFirstLineEnd r)).map fun p =>
      ((p.map String.ofList).weaken h).grow.grow.grow
  | '"' :: r => (readBasic r).map fun p => (p.map String.ofList).grow
  | '\'' :: r => (readLiteral r).map fun p => (p.map String.ofList).grow
  | _ => none

/-! ### Keys -/

/-- A character of a key without quotes. -/
def isBare (c : Char) : Bool := c.isAlphanum || c = '_' || c = '-'

/-- One part of a key. -/
def readKeyPart (s : List Char) : Option (Parsed String s.length) :=
  match h : s.takeWhile isBare with
  | c :: cs => some ⟨String.ofList (c :: cs), s.dropWhile isBare, Taken.length_dropWhile_lt h⟩
  | [] =>
    match s with
    | '"' :: r => (readBasic r).map fun p => (p.map String.ofList).grow
    | '\'' :: r => (readLiteral r).map fun p => (p.map String.ofList).grow
    | _ => none

/-- The parts of a key with dots between them, blanks around a dot not counting. -/
def readKeyParts (s : List Char) : Option (Parsed (List String) s.length) :=
  match readKeyPart s with
  | none => none
  | some ⟨part, r, _⟩ =>
    have h := length_skipBlanks_le r
    match hr : skipBlanks r with
    | '.' :: r' =>
      have h' := length_skipBlanks_le r'
      have h'' : r'.length < r.length := by
        rw [hr] at h; simp only [List.length_cons] at h; omega
      (readKeyParts (skipBlanks r')).map fun p => (p.map (part :: ·)).weaken (by omega)
    | r' => some ⟨[part], r', by rw [hr] at h; omega⟩
termination_by s.length
decreasing_by omega

/-- How many parts a key may have. -/
def maxKeyParts : Nat := 80

/-- A key of one part or more. -/
def readKey (s : List Char) : Option (Parsed (List String) s.length) :=
  (readKeyParts s).filter (·.value.length ≤ maxKeyParts)

end FleetPlan.Toml
