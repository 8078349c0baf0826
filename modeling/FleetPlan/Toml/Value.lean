/-
Values of a configuration, and the tables that keys put them in.

Headings in double brackets, which add a table to a list of tables, are left out:
no setting takes such a list, so a text that holds one is refused either way.  A
table remembers how it came about, because that decides what may still be added
to it: a table in braces is closed, one that a dotted key made takes further
dotted keys, and one that a heading only passed through may still get a heading
of its own.
-/
import FleetPlan.Toml.Scalar

namespace FleetPlan.Toml

/-- How a table came about. -/
inductive TableKind where
  | heading
  /-- Passed through by a longer heading. -/
  | passed
  | dotted
  | inBraces
  deriving DecidableEq, Repr

inductive Value where
  | text (value : String)
  | scalar (value : Scalar)
  | list (items : List Value)
  | table (kind : TableKind) (entries : List (String × Value))
  deriving Inhabited

abbrev Entries := List (String × Value)

/-! ### Tables -/

namespace Entries

def get? (es : Entries) (key : String) : Option Value := (es.find? (·.1 == key)).map (·.2)

/-- The entries with another value under a key that is there. -/
def replace (es : Entries) (key : String) (value : Value) : Entries :=
  es.map fun e => if e.1 == key then (key, value) else e

/-- Puts a value under a dotted key. -/
def place (value : Value) : (key : List String) → Entries → Option Entries
  | [], _ => none
  | [k], es => if (es.get? k).isSome then none else some (es ++ [(k, value)])
  | k :: ks, es =>
    match es.get? k with
    | none => (place value ks []).map fun sub => es ++ [(k, .table .dotted sub)]
    | some (.table .dotted sub) =>
      (place value ks sub).map fun sub => es.replace k (.table .dotted sub)
    | some _ => none

/-- Makes the table of a heading. -/
def head : (heading : List String) → Entries → Option Entries
  | [], _ => none
  | [k], es =>
    match es.get? k with
    | none => some (es ++ [(k, .table .heading [])])
    | some (.table .passed sub) => some (es.replace k (.table .heading sub))
    | some _ => none
  | k :: ks, es =>
    match es.get? k with
    | none => (head ks []).map fun sub => es ++ [(k, .table .passed sub)]
    | some (.table .inBraces _) => none
    | some (.table kind sub) => (head ks sub).map fun sub => es.replace k (.table kind sub)
    | some _ => none

/-- Changes the entries of the table under a heading. -/
def under (change : Entries → Option Entries) : (heading : List String) → Entries → Option Entries
  | [], es => change es
  | k :: ks, es =>
    match es.get? k with
    | some (.table kind sub) => (under change ks sub).map fun sub => es.replace k (.table kind sub)
    | _ => none

end Entries

/-! ### Containers -/

/-- The items of a list from behind its bracket on; a comma may stand behind the last. -/
def readItems (item : Reader Value) (s : List Char) : Option (Parsed (List Value) s.length) :=
  match skipTrivia s with
  | ⟨[], _⟩ => none
  | ⟨c :: r, h⟩ =>
    if c = ']' then some ⟨[], r, h⟩
    else match item (c :: r) with
      | none => none
      | some ⟨v, r₁, h₁⟩ =>
        match skipTrivia r₁ with
        | ⟨[], _⟩ => none
        | ⟨d :: r₂, h₂⟩ =>
          have : r₂.length < s.length := by simp only [List.length_cons] at h₂; omega
          if d = ',' then
            (readItems item r₂).map fun p => (p.map (v :: ·)).weaken (by omega)
          else if d = ']' then some ⟨[v], r₂, this⟩
          else none
termination_by s.length
decreasing_by omega

/-- A key, the equals sign and a value, with what `skip` passes over around the sign. -/
def readPair (skip : (s : List Char) → Rest s) (value : Reader Value) :
    Reader (List String × Value) := fun s => do
  let ⟨key, r, _⟩ ← readKey s
  have := (skip r).2
  let ⟨_, r₁, _⟩ ← expect '=' (skip r).1
  have := (skip r₁).2
  let ⟨v, r₂, _⟩ ← value (skip r₁).1
  some ⟨(key, v), r₂, by omega⟩

/-- The entries of a table in braces from behind its brace on; each may run over lines. -/
def readEntries (value : Reader Value) (es : Entries) (s : List Char) :
    Option (Parsed Entries s.length) :=
  match skipTrivia s with
  | ⟨[], _⟩ => none
  | ⟨c :: r, h⟩ =>
    if c = '\x7d' then some ⟨es, r, h⟩
    else match readPair skipTrivia value (c :: r) with
      | none => none
      | some ⟨(key, v), r₁, h₁⟩ =>
        match es.place v key, skipTrivia r₁ with
        | none, _ => none
        | _, ⟨[], _⟩ => none
        | some es', ⟨d :: r₂, h₂⟩ =>
          have : r₂.length < s.length := by simp only [List.length_cons] at h₂; omega
          if d = ',' then (readEntries value es' r₂).map (·.weaken (by omega))
          else if d = '\x7d' then some ⟨es', r₂, this⟩
          else none
termination_by s.length
decreasing_by omega

/-! ### Values -/

/-- How deep lists and tables in braces may nest. -/
def maxDepth : Nat := 80

/-- Reads a value whose parts, if it may have any, are read by `inner`. -/
def readWith (inner : Option (Reader Value)) : Reader Value
  | [] => none
  | c :: r =>
    if c = '"' || c = '\'' then (readString (c :: r)).map (·.map .text)
    else if c = '[' then do
      let inner ← inner
      (readItems inner r).map fun p => (p.map .list).grow
    else if c = '\x7b' then do
      let inner ← inner
      (readEntries inner [] r).map fun p => (p.map (.table .inBraces)).grow
    else (Scalar.read (c :: r)).map (·.map .scalar)

/-- Reads a value in which at most `depth` containers stand inside one another. -/
def readAt : (depth : Nat) → Reader Value
  | 0 => readWith none
  | depth + 1 => readWith (some (readAt depth))

/-! ### Documents -/

/-- A heading from behind its bracket on. -/
def readHeading : Reader (List String) := fun s => do
  have := length_skipBlanks_le s
  let ⟨heading, r, _⟩ ← readKey (skipBlanks s)
  have := length_skipBlanks_le r
  let ⟨_, r₁, _⟩ ← expect ']' (skipBlanks r)
  some ⟨heading, r₁, by omega⟩

/-- Reads lines into the table under the heading that was last. -/
def readLines (heading : List String) (es : Entries) (s : List Char) : Option Entries :=
  match skipTrivia s with
  | ⟨[], _⟩ => some es
  | ⟨c :: r, h⟩ =>
    if c = '[' then
      match readHeading r with
      | none => none
      | some ⟨heading', r₁, h₁⟩ =>
        match es.head heading', skipLineEnd r₁ with
        | some es', some ⟨_, r₂, h₂⟩ =>
          have : r₂.length < s.length := by simp only [List.length_cons] at h; omega
          readLines heading' es' r₂
        | _, _ => none
    else
      match readPair skipInLine (readAt maxDepth) (c :: r) with
      | none => none
      | some ⟨(key, v), r₁, h₁⟩ =>
        match es.under (·.place v key) heading, skipLineEnd r₁ with
        | some es', some ⟨_, r₂, h₂⟩ =>
          have : r₂.length < s.length := by omega
          readLines heading es' r₂
        | _, _ => none
termination_by s.length
decreasing_by all_goals omega

/-- The table that a configuration text describes. -/
def read (text : String) : Option Entries :=
  let cs := text.toList
  readLines [] [] (if cs.head? = some '\ufeff' then cs.tail else cs)

end FleetPlan.Toml
