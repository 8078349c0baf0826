/-
What a reader takes, whatever its bound.

The answer of a reader carries a proof about its length, and a fault says what is
wrong.  `taken?` forgets both, so that what a reader does to two inputs can be
compared.  Two notions rest on it.  A reader is `Local` when it looks at what it takes
and at most at the first octet behind, and it would have taken the same in front of
anything that ends a value.  `Delimited` says what ends a value: nothing, space, a
comma or a closing bracket.
-/
import FleetPlan.Json.Reader

namespace FleetPlan.Json

/-- The value and what is left behind it; nothing for a fault. -/
def taken? {α : Type} {n : Nat} : Except Fault (Parsed α n) → Option (α × Octets)
  | .ok p => some (p.value, p.rest)
  | .error _ => none

section

variable {α β : Type} {m n : Nat} {x : Except Fault (Parsed α m)} {a : α} {r : Octets}

@[simp] theorem taken?_ok (p : Parsed α n) : taken? (.ok p) = some (p.value, p.rest) := rfl

@[simp] theorem taken?_error (f : Fault) : taken? (.error f : Except Fault (Parsed α n)) = none :=
  rfl

theorem taken?_eq_some_iff : taken? x = some (a, r) ↔ ∃ h, x = .ok ⟨a, r, h⟩ := by
  cases x with
  | error f => simp
  | ok p =>
    rw [taken?_ok, Option.some.injEq, Prod.mk.injEq]
    constructor
    · rintro ⟨rfl, rfl⟩
      exact ⟨p.rest_lt, rfl⟩
    · rintro ⟨h, hp⟩
      rw [Except.ok.inj hp]
      exact ⟨rfl, rfl⟩

/-! Another value leaves what is left, and another bound changes nothing. -/

@[simp] theorem taken?_map_map {f : α → β} :
    taken? (x.map fun p => p.map f) = (taken? x).map fun e => (f e.1, e.2) := by
  cases x <;> rfl

@[simp] theorem taken?_map_map_grow {f : α → β} :
    taken? (x.map fun p => (p.map f).grow) = (taken? x).map fun e => (f e.1, e.2) := by
  cases x <;> rfl

@[simp] theorem taken?_map_map_after {f : α → β} {h : m < n} :
    taken? (x.map fun p => (p.map f).after h) = (taken? x).map fun e => (f e.1, e.2) := by
  cases x <;> rfl

@[simp] theorem taken?_map_map_weaken {f : α → β} {h : m ≤ n} :
    taken? (x.map fun p => (p.map f).weaken h) = (taken? x).map fun e => (f e.1, e.2) := by
  cases x <;> rfl

/-- What is taken with another value was taken with its own. -/
theorem taken?_map_map_eq_some_iff {f : α → β} {b : β} :
    taken? (x.map fun p => p.map f) = some (b, r) ↔ ∃ a, taken? x = some (a, r) ∧ f a = b := by
  rw [taken?_map_map, Option.map_eq_some_iff]
  constructor
  · rintro ⟨⟨a, r'⟩, hx, heq⟩
    obtain ⟨rfl, rfl⟩ := Prod.mk.inj heq
    exact ⟨a, hx, rfl⟩
  · rintro ⟨a, hx, rfl⟩
    exact ⟨(a, r), hx, rfl⟩

@[simp] theorem taken?_map_grow : taken? (x.map fun p => p.grow) = taken? x := by
  cases x <;> rfl

@[simp] theorem taken?_map_after {h : m < n} : taken? (x.map fun p => p.after h) = taken? x := by
  cases x <;> rfl

@[simp] theorem taken?_map_weaken {h : m ≤ n} : taken? (x.map fun p => p.weaken h) = taken? x := by
  cases x <;> rfl

end

/-! ### Space -/

/-- Nothing but space. -/
def Blank (ws : Octets) : Prop := ∀ c ∈ ws, Ascii.isSpace c = true

theorem blank_nil : Blank [] := by simp [Blank]

theorem skipSpace_append {ws : Octets} (h : Blank ws) (s : Octets) :
    skipSpace (ws ++ s) = skipSpace s := by
  induction ws with
  | nil => rfl
  | cons c ws ih =>
    rw [List.cons_append, skipSpace, List.dropWhile_cons_of_pos (h c List.mem_cons_self)]
    exact ih fun d hd => h d (List.mem_cons_of_mem _ hd)

theorem skipSpace_cons {c : UInt8} (h : Ascii.isSpace c = false) (r : Octets) :
    skipSpace (c :: r) = c :: r :=
  List.dropWhile_cons_of_neg (by simp [h])

/-- The first octet behind space. -/
theorem skipSpace_blank_cons {ws : Octets} (h : Blank ws) {c : UInt8}
    (hc : Ascii.isSpace c = false) (r : Octets) : skipSpace (ws ++ c :: r) = c :: r := by
  rw [skipSpace_append h, skipSpace_cons hc]

/-- What space was skipped. -/
theorem exists_blank (s : Octets) : ∃ ws, Blank ws ∧ s = ws ++ skipSpace s :=
  ⟨s.takeWhile Ascii.isSpace, List.all_eq_true.mp List.all_takeWhile,
    List.takeWhile_append_dropWhile.symm⟩

theorem not_isSpace_of_skipSpace {s r : Octets} {c : UInt8} (h : skipSpace s = c :: r) :
    Ascii.isSpace c = false := by
  have hdrop : s.dropWhile Ascii.isSpace = c :: r := h
  have hhead := List.head_dropWhile_not Ascii.isSpace (hdrop ▸ List.cons_ne_nil c r)
  simpa [hdrop] using hhead

section

variable {α : Type} {s : Octets} {atEnd : Fault}

theorem length_lt_of_skipSpace {c : UInt8} {r : Octets} (h : skipSpace s = c :: r) :
    r.length < s.length := by
  have hle := length_skipSpace_le s
  rw [h] at hle
  exact hle

theorem withNext_eq {next : (c : UInt8) → (r : Octets) → r.length < s.length → Except Fault α}
    {c : UInt8} {r : Octets} (h : skipSpace s = c :: r) :
    withNext s atEnd next = next c r (length_lt_of_skipSpace h) := by
  unfold withNext
  split
  · rename_i hnil
    simp [h] at hnil
  · rename_i c' r' hcons
    obtain ⟨rfl, rfl⟩ := List.cons.inj (h.symm.trans hcons)
    rfl

theorem exists_of_withNext_ok
    {next : (c : UInt8) → (r : Octets) → r.length < s.length → Except Fault α} {a : α}
    (h : withNext s atEnd next = .ok a) :
    ∃ c r hr, skipSpace s = c :: r ∧ next c r hr = .ok a := by
  unfold withNext at h
  split at h
  · simp at h
  · rename_i c r hcons
    exact ⟨c, r, _, hcons, h⟩

end

/-! ### Words -/

theorem taken?_dropWord_iff {word s : Octets} {u : Unit} {r : Octets} :
    taken? (dropWord word s) = some (u, r) ↔ s = word ++ r := by
  induction word generalizing s with
  | nil => simp [dropWord, Taken.leaving, eq_comm]
  | cons w ws ih =>
    cases s with
    | nil => simp [dropWord]
    | cons c s =>
      rw [dropWord]
      split
      · rename_i hc
        rw [taken?_map_grow, ih, List.cons_append, List.cons.injEq]
        simp [hc]
      · rename_i hc
        simp [hc]

theorem taken?_dropWord (word r : Octets) : taken? (dropWord word (word ++ r)) = some ((), r) :=
  taken?_dropWord_iff.mpr rfl

/-! ### Readers that look no further -/

/-- What may stand behind a value. -/
def Delimited (r : Octets) : Prop :=
  ∀ c ∈ r.head?, Ascii.isSpace c = true ∨ c = Ascii.comma ∨ c = Ascii.closeBracket ∨
    c = Ascii.closeBrace

/-- The second input may stand where the first one does. -/
def MayFollow (r r' : Octets) : Prop := r'.head? = r.head? ∨ Delimited r'

theorem MayFollow.append {r r' : Octets} (h : MayFollow r r') (w : Octets) :
    MayFollow (w ++ r) (w ++ r') := by
  cases w with
  | nil => exact h
  | cons c w => exact .inl rfl

/--
What is taken from an input does not depend on what stands behind, as long as that
begins with the same octet or ends a value.
-/
def LocalAt {α : Type} (f : Octets → Option (α × Octets)) (s : Octets) : Prop :=
  ∀ a r, f s = some (a, r) →
    ∃ w, s = w ++ r ∧ ∀ r', MayFollow r r' → f (w ++ r') = some (a, r')

/-- A reader that never looks further than at the first octet behind what it takes. -/
def Local {α : Type} (f : Octets → Option (α × Octets)) : Prop := ∀ s, LocalAt f s

namespace LocalAt

variable {α β : Type} {f : Octets → Option (α × Octets)} {s : Octets}

theorem pure (a : α) : LocalAt (fun s => some (a, s)) s := by
  intro b r h
  obtain ⟨rfl, rfl⟩ := Prod.mk.inj (Option.some.inj h)
  exact ⟨[], rfl, fun _ _ => rfl⟩

theorem fail : LocalAt (fun _ => (none : Option (α × Octets))) s :=
  fun _ _ h => absurd h (by simp)

theorem ite {g : Octets → Option (α × Octets)} {p : Prop} [Decidable p] (hf : p → LocalAt f s)
    (hg : ¬p → LocalAt g s) : LocalAt (fun s => if p then f s else g s) s := by
  by_cases hp : p
  · simpa only [if_pos hp] using hf hp
  · simpa only [if_neg hp] using hg hp

/-- One octet more in front. -/
theorem cons {g : Octets → Option (α × Octets)} {c : UInt8} (hcons : ∀ t, f (c :: t) = g t)
    (hg : LocalAt g s) : LocalAt f (c :: s) := by
  intro a r h
  obtain ⟨w, rfl, hall⟩ := hg a r ((hcons s).symm.trans h)
  exact ⟨c :: w, rfl, fun r' hr' => (hcons (w ++ r')).trans (hall r' hr')⟩

/-- The first octet set aside, if it is among what is taken. -/
theorem tail {c : UInt8} (hf : LocalAt f (c :: s))
    (hless : ∀ a r, f (c :: s) = some (a, r) → r.length < (c :: s).length) :
    LocalAt (fun t => f (c :: t)) s := by
  intro a r h
  obtain ⟨w, hw, hall⟩ := hf a r h
  cases w with
  | nil => exact absurd (hless a r h) (by rw [hw]; exact Nat.lt_irrefl _)
  | cons d w =>
    obtain ⟨rfl, rfl⟩ := List.cons.inj hw
    exact ⟨w, rfl, hall⟩

/-- Space in front. -/
theorem blank {g : Octets → Option (α × Octets)} {c : UInt8} {r : Octets}
    (hblank : ∀ s t, skipSpace s = c :: t → f s = g t) (hskip : skipSpace s = c :: r)
    (hg : LocalAt g r) : LocalAt f s := by
  intro a r' h
  obtain ⟨w, rfl, hall⟩ := hg a r' ((hblank s r hskip).symm.trans h)
  obtain ⟨ws, hws, hs⟩ := exists_blank s
  refine ⟨ws ++ c :: w, by rw [hs, hskip, List.append_assoc]; rfl, ?_⟩
  intro t ht
  rw [List.append_assoc, List.cons_append, hblank _ _
    (skipSpace_blank_cons hws (not_isSpace_of_skipSpace hskip) (w ++ t))]
  exact hall t ht

theorem map (h : LocalAt f s) (g : α → β) :
    LocalAt (fun s => (f s).map fun e => (g e.1, e.2)) s := by
  intro b r hs
  obtain ⟨⟨a, _⟩, ha, hb⟩ := Option.map_eq_some_iff.mp hs
  obtain ⟨rfl, rfl⟩ := Prod.mk.inj hb
  obtain ⟨w, hw, hall⟩ := h a _ ha
  refine ⟨w, hw, ?_⟩
  intro r' hr'
  dsimp only
  rw [hall r' hr']
  rfl

/-- One reader after another. -/
theorem bind {g : α → Octets → Option (β × Octets)} (hf : LocalAt f s)
    (hg : ∀ a r, f s = some (a, r) → LocalAt (g a) r) :
    LocalAt (fun s => (f s).bind fun e => g e.1 e.2) s := by
  intro b r hs
  obtain ⟨⟨a, r₁⟩, ha, hb⟩ := Option.bind_eq_some_iff.mp hs
  obtain ⟨w₂, rfl, hall₂⟩ := hg a r₁ ha b r hb
  obtain ⟨w₁, rfl, hall₁⟩ := hf a (w₂ ++ r) ha
  refine ⟨w₁ ++ w₂, (List.append_assoc _ _ _).symm, ?_⟩
  intro r' hr'
  dsimp only
  rw [List.append_assoc, hall₁ (w₂ ++ r') (hr'.append w₂)]
  exact hall₂ r' hr'

end LocalAt

end FleetPlan.Json
