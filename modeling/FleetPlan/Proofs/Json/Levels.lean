/-
The levels of documents that are written out do not matter.

`Value.read` allows for as many documents inside one another as the text has octets.  A
document that is written out in a text is shorter than the text, so the levels never run
out, and reading with more of them is no different.  Hence `Value.read_eq`, in which a
value is read with the reader itself for the documents inside, and nothing counts levels.
-/
import FleetPlan.Json.Value
import FleetPlan.Proofs.Json.Spelling

namespace FleetPlan.Json

/-! ### Readers that agree on short inputs -/

section

variable {α σ : Type} {n : Nat}

theorem withNext_congr {s : Octets} {atEnd : Fault}
    {next next' : (c : UInt8) → (r : Octets) → r.length < s.length → Except Fault α}
    (h : ∀ c r hr, next c r hr = next' c r hr) : withNext s atEnd next = withNext s atEnd next' := by
  rw [show next = next' from funext fun c => funext fun r => funext fun hr => h c r hr]

theorem listItems_congr {item item' : Reader α} (h : ∀ t, t.length ≤ n → item t = item' t)
    (first : Bool) (s : Octets) (hs : s.length ≤ n) :
    listItems item first s = listItems item' first s := by
  rw [listItems, listItems]
  cases nextItem first s with
  | error f => rfl
  | ok next =>
    cases next with
    | none => rfl
    | some p =>
      obtain ⟨u, r, hr⟩ := p
      dsimp only
      rw [h r (by omega)]
      cases item' r with
      | error f => rfl
      | ok q =>
        obtain ⟨a, r', hr'⟩ := q
        dsimp only
        rw [listItems_congr h false r' (by omega)]
termination_by s.length
decreasing_by omega

theorem foldMembers_congr {member member' : σ → String → Reader σ}
    (h : ∀ g name t, t.length ≤ n → member g name t = member' g name t) (first : Bool) (g : σ)
    (s : Octets) (hs : s.length ≤ n) :
    foldMembers member first g s = foldMembers member' first g s := by
  rw [foldMembers, foldMembers]
  cases nextName first s with
  | error f => rfl
  | ok next =>
    cases next with
    | none => rfl
    | some p =>
      obtain ⟨name, r, hr⟩ := p
      dsimp only
      rw [h g name r (by omega)]
      cases member' g name r with
      | error f => rfl
      | ok q =>
        obtain ⟨g', r', hr'⟩ := q
        dsimp only
        rw [foldMembers_congr h false g' r' (by omega)]
termination_by s.length
decreasing_by omega

theorem readMember_congr {read read' : Reader α} (h : ∀ t, t.length ≤ n → read t = read' t)
    {s : Octets} (hs : s.length ≤ n) : readMember read s = readMember read' s := by
  unfold readMember
  cases readColon s with
  | error f => rfl
  | ok p =>
    obtain ⟨u, r, hr⟩ := p
    dsimp only
    rw [h r (by omega)]

end

namespace Value

/-! ### Documents that are written out -/

variable {written written' : Octets → Except Fault Value} {n : Nat}

/-- What a literal holds is shorter than the literal. -/
theorem length_lt_of_readLiteral {s : Octets} {p : Parsed String s.length}
    (h : readLiteral s = .ok p) : (Text.octets p.value).length < s.length := by
  obtain ⟨c, r, hr, hskip, h⟩ := exists_of_withNext_ok h
  split at h
  · cases hread : readText r with
    | error f =>
      rw [hread] at h
      cases h
    | ok q =>
      rw [hread] at h
      cases h
      have htaken : taken? (readText r) = some (q.value, q.rest) := by rw [hread]; rfl
      obtain ⟨w, hw, hspells⟩ := exists_spells htaken
      have hlt := hspells.length_lt
      have hlength := congrArg List.length hw
      rw [List.length_append] at hlength
      show (Text.octets q.value).length < s.length
      omega
  · cases h

theorem readWrittenOut_congr (h : ∀ u : Octets, u.length < n → written u = written' u) {s : Octets}
    (hs : s.length ≤ n) : readWrittenOut written s = readWrittenOut written' s := by
  unfold readWrittenOut
  cases readColon s with
  | error f => rfl
  | ok p =>
    obtain ⟨u, r, hr⟩ := p
    cases hliteral : readLiteral r with
    | error f => simp only [hliteral, bind, Except.bind]
    | ok q =>
      have hlt := length_lt_of_readLiteral hliteral
      obtain ⟨writing, r', hr'⟩ := q
      simp only [hliteral, bind, Except.bind]
      rw [h _ (by dsimp only at hlt; omega)]

theorem readObject_congr (h : ∀ u : Octets, u.length < n → written u = written' u)
    {inner inner' : Reader Value} (hinner : ∀ t, t.length ≤ n → inner t = inner' t) {s : Octets}
    (hs : s.length ≤ n) : readObject written inner s = readObject written' inner' s := by
  have hfold : foldMembers (readInto inner) true [] s = foldMembers (readInto inner') true [] s := by
    refine foldMembers_congr (fun g name t ht => ?_) true [] s hs
    unfold readInto
    rw [readMember_congr hinner ht]
  unfold readObject
  rw [hfold]
  cases nextName true s with
  | error f => rfl
  | ok next =>
    cases next with
    | none => rfl
    | some p =>
      obtain ⟨name, r, hr⟩ := p
      dsimp only
      rw [readWrittenOut_congr h (Nat.le_of_lt (Nat.lt_of_lt_of_le hr hs))]

/-! ### Values -/

theorem readWith_congr (h : ∀ u : Octets, u.length < n → written u = written' u)
    {inner inner' : Reader Value} (hinner : ∀ t, t.length ≤ n → inner t = inner' t) {s : Octets}
    (hs : s.length ≤ n) : readWith written (some inner) s = readWith written' (some inner') s := by
  refine withNext_congr fun c r hr => ?_
  dsimp only
  rw [listItems_congr hinner true r (by omega), readObject_congr h hinner (by omega)]

theorem readAt_congr (h : ∀ u : Octets, u.length < n → written u = written' u) (depth : Nat)
    {s : Octets} (hs : s.length ≤ n) : readAt written depth s = readAt written' depth s := by
  induction depth generalizing s with
  | zero => rfl
  | succ depth ih => exact readWith_congr h (fun t ht => ih ht) hs

theorem readWithin_congr {levels levels' : Nat} {s : Octets} (h : s.length < levels)
    (h' : s.length < levels') : readWithin levels s = readWithin levels' s := by
  induction levels generalizing levels' s with
  | zero => exact absurd h (Nat.not_lt_zero _)
  | succ levels ih =>
    cases levels' with
    | zero => exact absurd h' (Nat.not_lt_zero _)
    | succ levels' =>
      have hwritten (u : Octets) (hu : u.length < s.length) :
          readWithin levels u = readWithin levels' u :=
        ih (by omega) (by omega)
      rw [readWithin, readWithin, readAt_congr hwritten maxDepth (Nat.le_refl _)]

/-- **A value is read with the same reader for the documents that are written out in it.** -/
theorem read_eq (s : Octets) : read s = (do
    let p ← readAt read maxDepth s
    if (skipSpace p.rest).isEmpty then return p.value else throw .trailingCharacters) := by
  have hwritten (u : Octets) (hu : u.length < s.length) : readWithin s.length u = read u :=
    readWithin_congr hu (Nat.lt_succ_self _)
  rw [read, readWithin, readAt_congr hwritten maxDepth (Nat.le_refl _)]

end Value

end FleetPlan.Json
