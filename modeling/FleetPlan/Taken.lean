/-
What a reader takes from the front of its input.

A reader answers with a value and with the part of the input behind it.  The
answer carries a proof that fewer than a given number of symbols are left, so a
loop of readers ends because what is left gets shorter; no loop counts steps.
`length_dropWhile_lt` gives that proof to readers that take a run of symbols.
-/

namespace FleetPlan

/-- A value read from symbols of `τ`, with fewer than `bound` of them left behind it. -/
structure Taken (τ α : Type) (bound : Nat) where
  value : α
  rest : List τ
  rest_lt : rest.length < bound

namespace Taken

variable {τ α β : Type} {m n : Nat}

/-- A value that was read from one symbol and no more. -/
def leaving (value : α) (rest : List τ) : Taken τ α (rest.length + 1) :=
  ⟨value, rest, Nat.lt_succ_self _⟩

/-- A value behind which nothing is left. -/
def nothingLeft (value : α) : Taken τ α (n + 1) := ⟨value, [], Nat.succ_pos n⟩

/-- The same answer under a weaker bound. -/
def weaken (p : Taken τ α m) (h : m ≤ n) : Taken τ α n :=
  ⟨p.value, p.rest, Nat.lt_of_lt_of_le p.rest_lt h⟩

/-- The answer of a reader that began further back. -/
def after (p : Taken τ α m) (h : m < n) : Taken τ α n := p.weaken (Nat.le_of_lt h)

/-- The answer of a reader that began one symbol further back. -/
def grow (p : Taken τ α n) : Taken τ α (n + 1) := p.weaken (Nat.le_succ n)

/-- The same symbols, another value. -/
def map (f : α → β) (p : Taken τ α n) : Taken τ β n := ⟨f p.value, p.rest, p.rest_lt⟩

/-! ### Runs of symbols, and what is left behind them -/

/-- A run ends in front of a symbol that does not belong to it. -/
theorem takeWhile_append_of_head {p : τ → Bool} {run rest : List τ} (hrun : ∀ a ∈ run, p a = true)
    (hrest : ∀ a ∈ rest.head?, p a = false) :
    (run ++ rest).takeWhile p = run ∧ (run ++ rest).dropWhile p = rest := by
  have hnone : rest.takeWhile p = [] ∧ rest.dropWhile p = rest := by
    cases rest with
    | nil => simp
    | cons a rest => simp [hrest a rfl]
  rw [List.takeWhile_append_of_pos hrun, List.dropWhile_append_of_pos hrun, hnone.1, hnone.2]
  simp

theorem length_dropWhile_le (p : τ → Bool) (s : List τ) : (s.dropWhile p).length ≤ s.length :=
  (List.dropWhile_suffix p (l := s)).length_le

/-- A run that is not empty leaves less than there was. -/
theorem length_dropWhile_lt {p : τ → Bool} {s run : List τ} {a : τ}
    (h : s.takeWhile p = a :: run) : (s.dropWhile p).length < s.length := by
  have := congrArg List.length (List.takeWhile_append_dropWhile (p := p) (l := s))
  simp only [List.length_append, h, List.length_cons] at this
  omega

end Taken

end FleetPlan
