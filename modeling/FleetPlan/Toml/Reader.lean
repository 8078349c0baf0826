/-
Readers of configuration text.

A configuration is read character by character.  Why one is refused is not told
in detail, so a reader answers with a value or with nothing.  This module holds
the reader type and what stands between values: blanks, comments and line ends.
-/
import FleetPlan.Taken

namespace FleetPlan.Toml

/-- A value read from characters, with fewer than `bound` of them left behind it. -/
abbrev Parsed (α : Type) (bound : Nat) := Taken Char α bound

/-- Reads a value from the front and uses up at least one character. -/
abbrev Reader (α : Type) := (s : List Char) → Option (Parsed α s.length)

/-- A blank within a line. -/
def isBlank (c : Char) : Bool := c = ' ' || c = '\t'

/-- Whether a character may stand in a comment or between quotes: tabs, but no other control. -/
def isPlain (c : Char) : Bool := c = '\t' || (0x20 ≤ c.toNat && c.toNat ≠ 0x7f)

def skipBlanks (s : List Char) : List Char := s.dropWhile isBlank

theorem length_skipBlanks_le (s : List Char) : (skipBlanks s).length ≤ s.length :=
  Taken.length_dropWhile_le _ _

/-- What may be left of some characters: no more than there were. -/
abbrev Rest (s : List Char) := { r : List Char // r.length ≤ s.length }

namespace Rest

def all (s : List Char) : Rest s := ⟨s, Nat.le_refl _⟩

/-- What is left of fewer characters is left of more. -/
def within {s t : List Char} (r : Rest t) (h : t.length ≤ s.length) : Rest s :=
  ⟨r.1, Nat.le_trans r.2 h⟩

def behind {s : List Char} (c : Char) (r : Rest s) : Rest (c :: s) := ⟨r.1, Nat.le_succ_of_le r.2⟩

end Rest

/-- Skips blanks of one line. -/
def skipInLine (s : List Char) : Rest s := ⟨skipBlanks s, length_skipBlanks_le s⟩

/-- Skips blanks and line ends. -/
def skipLines : (s : List Char) → Rest s
  | [] => .all []
  | c :: r =>
    if isBlank c || c = '\n' then (skipLines r).behind c
    else if c = '\r' && r.head? = some '\n' then (skipLines r).behind c
    else .all (c :: r)

/-- Skips blanks, line ends and comments. -/
def skipTrivia : (s : List Char) → Rest s
  | [] => .all []
  | c :: r =>
    if c = '#' then
      have h := Taken.length_dropWhile_le isPlain r
      ((skipTrivia (r.dropWhile isPlain)).within h).behind c
    else if isBlank c || c = '\n' then (skipTrivia r).behind c
    else if c = '\r' && r.head? = some '\n' then (skipTrivia r).behind c
    else .all (c :: r)
termination_by s => s.length
decreasing_by all_goals (simp only [List.length_cons]; omega)

/-- What is left behind a comment, if there is one. -/
def dropComment (s : List Char) : List Char :=
  if s.head? = some '#' then s.dropWhile isPlain else s

theorem length_dropComment_le (s : List Char) : (dropComment s).length ≤ s.length := by
  unfold dropComment
  split
  · exact Taken.length_dropWhile_le _ _
  · exact Nat.le_refl _

/-- The end of a line, after blanks and perhaps a comment. -/
def skipLineEnd (s : List Char) : Option (Parsed Unit (s.length + 1)) :=
  match dropComment (skipBlanks s),
      Nat.le_trans (length_dropComment_le _) (length_skipBlanks_le s) with
  | [], _ => some (.nothingLeft ())
  | '\n' :: r, h => some (Taken.mk () r h).grow
  | '\r' :: '\n' :: r, h => some ((Taken.leaving () r).after h).grow
  | _, _ => none

/-- One character that has to stand here. -/
def expect (c : Char) : Reader Unit
  | [] => none
  | d :: r => if d = c then some (.leaving () r) else none

end FleetPlan.Toml
