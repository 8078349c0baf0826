/-
Cutting text at a character, and joining the pieces again.
-/

namespace FleetPlan.Text

/-- What stands between the separators; there is always one piece more than separators. -/
def pieces (separator : Char) : List Char → List (List Char)
  | [] => [[]]
  | c :: rest =>
    if c = separator then [] :: pieces separator rest
    else match pieces separator rest with
      | [] => [[c]]
      | p :: ps => (c :: p) :: ps

/-- The pieces with the separator between them. -/
def unite (separator : Char) : List (List Char) → List Char
  | [] => []
  | [p] => p
  | p :: ps => p ++ separator :: unite separator ps

theorem pieces_ne_nil (separator : Char) (cs : List Char) : pieces separator cs ≠ [] := by
  cases cs with
  | nil => simp [pieces]
  | cons c rest =>
    simp only [pieces]
    split
    · simp
    · split <;> simp

/-- Joining the pieces gives the text back. -/
theorem unite_pieces (separator : Char) (cs : List Char) :
    unite separator (pieces separator cs) = cs := by
  induction cs with
  | nil => rfl
  | cons c rest ih =>
    have hne := pieces_ne_nil separator rest
    simp only [pieces]
    split
    · rename_i hc
      cases hp : pieces separator rest with
      | nil => exact absurd hp hne
      | cons p ps => rw [hp] at ih; simp [unite, ih, hc]
    · cases hp : pieces separator rest with
      | nil => exact absurd hp hne
      | cons p ps =>
        rw [hp] at ih
        cases ps with
        | nil => simpa [unite] using ih
        | cons q qs => simpa [unite] using ih

end FleetPlan.Text
