/-
Which dependency a list of steps is refused for.

Ids may be repeated in a list of steps, and then a dependency is on all steps of its id: it is
met in time only if all of them stand before the step that waits, and there is one at all.  The
loop over a list asks this of the ids behind it and ahead of it.  A table of where each id
stands last answers it too, because the step that stands last is before the step that waits
just when all of its id are (`orderError?_eq_findSome?`).  Filling such a table puts a later
position over an earlier one, and nothing else about it matters.

By the table it is told which of several violations a list is refused for, and that in a list
that is not refused nothing waits for what is still to come.
-/
import FleetPlan.Proofs.Rules

namespace FleetPlan

/-! ### Where an id stands last -/

/-- Where each id stands last. -/
def lastPositions (ids : List String) : Dict Nat := .ofList ids.zipIdx

section

variable {ids : List String} {d : String} {i last : Nat}

/-- Around an entry of a list with positions those in front are smaller and those behind greater. -/
theorem zipIdx_split {α : Type} {l : List α} {before after : List (α × Nat)} {a : α}
    (hsplit : l.zipIdx = before ++ (a, i) :: after) :
    (∀ e ∈ before, e.2 < i) ∧ ∀ e ∈ after, i < e.2 := by
  have hsorted : l.zipIdx.Pairwise fun a b => a.2 < b.2 := by
    rw [← List.pairwise_map (f := Prod.snd) (R := (· < ·)), List.zipIdx_map_snd]
    exact List.pairwise_lt_range'
  rw [hsplit] at hsorted
  obtain ⟨-, hbehind, hfront⟩ := List.pairwise_append.mp hsorted
  exact ⟨fun e he => hfront e he _ List.mem_cons_self, (List.pairwise_cons.mp hbehind).1⟩

theorem get?_lastPositions_eq_some_iff : (lastPositions ids).get? d = some last ↔
    ids[last]? = some d ∧ ∀ j, ids[j]? = some d → j ≤ last := by
  rw [lastPositions, Dict.get?_eq_some_iff, (Dict.ofList_perm _).mem_iff, Dict.mem_lasting_iff]
  constructor
  · rintro ⟨before, after, hsplit, hafter⟩
    refine ⟨List.mk_mem_zipIdx_iff_getElem?.mp (by simp [hsplit]), fun j hj => ?_⟩
    have hmem := List.mk_mem_zipIdx_iff_getElem?.mpr hj
    rw [hsplit] at hmem
    rcases List.mem_append.mp hmem with hmem | hmem
    · exact ((zipIdx_split hsplit).1 _ hmem).le
    · rcases List.mem_cons.mp hmem with heq | hmem
      · exact (Prod.mk.inj heq).2.le
      · exact absurd (List.mem_map_of_mem hmem) hafter
  · rintro ⟨hlast, hall⟩
    obtain ⟨before, after, hsplit⟩ := List.append_of_mem (List.mk_mem_zipIdx_iff_getElem?.mpr hlast)
    refine ⟨before, after, hsplit, fun hmem => ?_⟩
    obtain ⟨e, he, rfl⟩ := List.mem_map.mp hmem
    have hmem : e ∈ ids.zipIdx := by
      rw [hsplit]
      exact List.mem_append_right _ (List.mem_cons_of_mem _ he)
    have hle := hall e.2 (List.mem_zipIdx_iff_getElem?.mp hmem)
    exact absurd hle ((zipIdx_split hsplit).2 e he).not_ge

theorem get?_lastPositions_eq_none_iff : (lastPositions ids).get? d = none ↔ d ∉ ids := by
  constructor
  · intro hnone hmem
    have hname : d ∈ ids.zipIdx.map (·.1) := by rwa [List.zipIdx_map_fst]
    obtain ⟨last, hlast⟩ := Dict.exists_mem_lasting hname
    have hsome := Dict.get?_eq_some_iff.mpr ((Dict.ofList_perm _).mem_iff.mpr hlast)
    rw [lastPositions, hsome] at hnone
    cases hnone
  · intro hnot
    refine Option.eq_none_iff_forall_ne_some.mpr fun last hsome => hnot ?_
    exact List.mem_of_getElem? (get?_lastPositions_eq_some_iff.mp hsome).1

/-- An id stands last at or behind a position just when it stands anywhere there. -/
theorem le_lastPosition_iff (h : (lastPositions ids).get? d = some last) :
    i ≤ last ↔ d ∈ ids.drop i := by
  obtain ⟨hlast, hall⟩ := get?_lastPositions_eq_some_iff.mp h
  rw [List.mem_iff_getElem?]
  simp only [List.getElem?_drop]
  constructor
  · intro hle
    exact ⟨last - i, by rwa [Nat.add_sub_cancel' hle]⟩
  · rintro ⟨j, hj⟩
    exact (Nat.le_add_right i j).trans (hall _ hj)

end

/-! ### Judging by the table -/

/-- What is wrong with a dependency of the step at a position, by where each id stands last. -/
def lateError? (host : Host) (positions : Dict Nat) (i : Nat) (step : HostStep) (d : String) :
    Option RunError :=
  match positions.get? d with
  | none => some (.unresolvedDependency step.id host.id d)
  | some last => if i ≤ last then some (.dependencyOrder step.id host.id d) else none

section

variable {host : Host} {steps : List HostStep} {step : HostStep} {d : String} {i : Nat}

/-- What is behind a position and what is ahead of it is told by where each id stands last. -/
theorem dependencyOrderError?_eq_lateError? {ids earlier : List String}
    (hearlier : ∀ id, id ∈ earlier ↔ id ∈ ids.take i) :
    dependencyOrderError? host earlier (ids.drop i) step d =
      lateError? host (lastPositions ids) i step d := by
  have hids : d ∈ ids ↔ d ∈ earlier ∨ d ∈ ids.drop i := by
    rw [hearlier, ← List.mem_append, List.take_append_drop]
  unfold dependencyOrderError? lateError?
  cases hlast : (lastPositions ids).get? d with
  | none =>
    obtain ⟨hbehind, hahead⟩ := not_or.mp (hids.not.mp (get?_lastPositions_eq_none_iff.mp hlast))
    simp [hbehind, hahead]
  | some last =>
    have hmem : d ∈ ids := List.mem_of_getElem? (get?_lastPositions_eq_some_iff.mp hlast).1
    have hle := le_lastPosition_iff (i := i) hlast
    by_cases hahead : d ∈ ids.drop i
    · simp [hahead, hle.mpr hahead]
    · have hbehind := (hids.mp hmem).resolve_right hahead
      simp [hahead, hbehind, hle.not.mpr hahead]

/-- **The loop judges as a table of last positions does.** -/
theorem orderError?_eq_findSome? (host : Host) (steps : List HostStep) :
    orderError? host steps = steps.zipIdx.findSome? fun e =>
      e.1.dependsOn.findSome? (lateError? host (lastPositions (steps.map (·.id))) e.2 e.1) := by
  have hfrom : ∀ before rest, steps = before ++ rest →
      orderErrorFrom? host (before.map (·.id)).reverse rest =
        (rest.zipIdx before.length).findSome? fun e =>
          e.1.dependsOn.findSome? (lateError? host (lastPositions (steps.map (·.id))) e.2 e.1) := by
    intro before rest hsplit
    induction rest generalizing before with
    | nil => rfl
    | cons step rest ih =>
      have hbehind : before.map (·.id) = (steps.map (·.id)).take before.length := by
        rw [hsplit, List.map_append, List.take_left' (List.length_map _)]
      have hahead : (step :: rest).map (·.id) = (steps.map (·.id)).drop before.length := by
        rw [hsplit, List.map_append, List.drop_left' (List.length_map _)]
      have hstep : dependencyOrderError? host (before.map (·.id)).reverse
          ((step :: rest).map (·.id)) step =
            lateError? host (lastPositions (steps.map (·.id))) before.length step := by
        rw [hahead]
        funext d
        exact dependencyOrderError?_eq_lateError? fun id => by rw [List.mem_reverse, hbehind]
      have hrest := ih (before ++ [step]) (by rw [hsplit, List.append_cons])
      rw [List.map_append, List.reverse_append, List.length_append] at hrest
      rw [orderErrorFrom?_cons, hstep, List.zipIdx_cons, List.findSome?_cons]
      cases step.dependsOn.findSome? _ with
      | some e => rfl
      | none => exact hrest
  exact hfrom [] steps rfl

end

/-! ### What a list is refused for -/

/-- A dependency of the step at a position is in the list, and only before that position. -/
structure StandsBefore (steps : List HostStep) (i : Nat) (d : String) : Prop where
  known : d ∈ steps.map (·.id)
  before : ∀ j, (steps.map (·.id))[j]? = some d → j < i

/-- The first dependency in a list of steps that does not stand before its step. -/
structure FirstLate (steps : List HostStep) (i : Nat) (step : HostStep) (d : String) : Prop where
  stands : steps[i]? = some step
  /-- No step in front has such a dependency. -/
  earlier : ∀ j other, j < i → steps[j]? = some other → ∀ e ∈ other.dependsOn,
    StandsBefore steps j e
  /-- Nor has the step in front of this one. -/
  dependency : ∃ before after, step.dependsOn = before ++ d :: after ∧
    ∀ e ∈ before, StandsBefore steps i e
  late : ¬StandsBefore steps i d

section

variable {host : Host} {steps : List HostStep} {step : HostStep} {d : String} {i : Nat}
  {e : RunError}

theorem lateError?_eq_none_iff :
    lateError? host (lastPositions (steps.map (·.id))) i step d = none ↔
      StandsBefore steps i d := by
  unfold lateError?
  cases hlast : (lastPositions (steps.map (·.id))).get? d with
  | none =>
    have hnot := get?_lastPositions_eq_none_iff.mp hlast
    exact iff_of_false (fun h => nomatch h) fun h => hnot h.known
  | some last =>
    obtain ⟨hat, hall⟩ := get?_lastPositions_eq_some_iff.mp hlast
    simp only [ite_eq_right_iff, reduceCtorEq, imp_false, Nat.not_le]
    exact ⟨fun hlt => ⟨List.mem_of_getElem? hat, fun j hj => (hall j hj).trans_lt hlt⟩,
      fun h => h.before last hat⟩

/-- An error tells whether the dependency is nowhere or stands too late. -/
theorem lateError?_eq_some_iff :
    lateError? host (lastPositions (steps.map (·.id))) i step d = some e ↔
      (d ∉ steps.map (·.id) ∧ e = .unresolvedDependency step.id host.id d) ∨
        ((∃ j, i ≤ j ∧ (steps.map (·.id))[j]? = some d) ∧
          e = .dependencyOrder step.id host.id d) := by
  unfold lateError?
  cases hlast : (lastPositions (steps.map (·.id))).get? d with
  | none =>
    have hnot := get?_lastPositions_eq_none_iff.mp hlast
    have hnowhere : ¬∃ j, i ≤ j ∧ (steps.map (·.id))[j]? = some d := by
      rintro ⟨j, -, hj⟩
      exact hnot (List.mem_of_getElem? hj)
    rw [or_iff_left fun h => hnowhere h.1, and_iff_right hnot, Option.some.injEq, eq_comm]
  | some last =>
    obtain ⟨hat, hall⟩ := get?_lastPositions_eq_some_iff.mp hlast
    have hmem := List.mem_of_getElem? hat
    have hlate : (∃ j, i ≤ j ∧ (steps.map (·.id))[j]? = some d) ↔ i ≤ last :=
      ⟨fun ⟨j, hij, hj⟩ => hij.trans (hall j hj), fun h => ⟨last, h, hat⟩⟩
    rw [or_iff_right fun h => h.1 hmem, hlate, Option.ite_none_right_eq_some, Option.some.injEq,
      eq_comm]

/-- What is found first in a list with positions. -/
theorem findSome?_zipIdx_eq_some_iff {α β : Type} {f : α × Nat → Option β} {l : List α} {b : β} :
    l.zipIdx.findSome? f = some b ↔ ∃ i a, l[i]? = some a ∧ f (a, i) = some b ∧
      ∀ j c, j < i → l[j]? = some c → f (c, j) = none := by
  rw [List.findSome?_eq_some_iff]
  constructor
  · rintro ⟨before, ⟨a, i⟩, after, hsplit, hfound, hbefore⟩
    refine ⟨i, a, List.mk_mem_zipIdx_iff_getElem?.mp (by simp [hsplit]), hfound, ?_⟩
    intro j c hj hc
    have hmem := List.mk_mem_zipIdx_iff_getElem?.mpr hc
    rw [hsplit] at hmem
    refine hbefore _ ((List.mem_append.mp hmem).resolve_right fun hmem => ?_)
    rcases List.mem_cons.mp hmem with heq | hmem
    · exact absurd (Prod.mk.inj heq).2 hj.ne
    · exact absurd ((zipIdx_split hsplit).2 _ hmem) hj.asymm
  · rintro ⟨i, a, ha, hfound, hbefore⟩
    obtain ⟨before, after, hsplit⟩ := List.append_of_mem (List.mk_mem_zipIdx_iff_getElem?.mpr ha)
    refine ⟨before, (a, i), after, hsplit, hfound, fun e he => ?_⟩
    have hmem : e ∈ l.zipIdx := hsplit ▸ List.mem_append_left _ he
    exact hbefore e.2 e.1 ((zipIdx_split hsplit).1 e he) (List.mem_zipIdx_iff_getElem?.mp hmem)

theorem orderError?_eq_none_iff_standsBefore : orderError? host steps = none ↔
    ∀ i step, steps[i]? = some step → ∀ d ∈ step.dependsOn, StandsBefore steps i d := by
  rw [orderError?_eq_findSome?, List.findSome?_eq_none_iff]
  simp only [List.findSome?_eq_none_iff, lateError?_eq_none_iff, Prod.forall,
    List.mk_mem_zipIdx_iff_getElem?]
  exact ⟨fun h i step => h step i, fun h step i => h i step⟩

theorem orderError?_eq_some_iff_firstLate : orderError? host steps = some e ↔
    ∃ i step d, FirstLate steps i step d ∧
      ((d ∉ steps.map (·.id) ∧ e = .unresolvedDependency step.id host.id d) ∨
        ((∃ j, i ≤ j ∧ (steps.map (·.id))[j]? = some d) ∧
          e = .dependencyOrder step.id host.id d)) := by
  rw [orderError?_eq_findSome?, findSome?_zipIdx_eq_some_iff]
  simp only [List.findSome?_eq_none_iff, List.findSome?_eq_some_iff, lateError?_eq_none_iff,
    lateError?_eq_some_iff]
  constructor
  · rintro ⟨i, step, hstep, ⟨before, d, after, hsplit, he, hbefore⟩, hearlier⟩
    refine ⟨i, step, d, ⟨hstep, hearlier, ⟨before, after, hsplit, hbefore⟩, fun h => ?_⟩, he⟩
    rcases he with ⟨hnowhere, -⟩ | ⟨⟨j, hij, hj⟩, -⟩
    · exact hnowhere h.known
    · exact absurd (h.before j hj) hij.not_gt
  · rintro ⟨i, step, d, h, he⟩
    obtain ⟨before, after, hsplit, hbefore⟩ := h.dependency
    exact ⟨i, step, h.stands, ⟨before, d, after, hsplit, he, hbefore⟩, h.earlier⟩

/-- A step that is recorded as waiting waits for one of its dependencies. -/
theorem Runner.Becomes.exists_of_waiting {r : Runner} {c : RunContext}
    {earlier : List StepRecord} {record : StepRecord} (h : r.Becomes c earlier step record)
    (hcode : record.code? = some StepErrorCode.dependencyNotCompleted.name) :
    ∃ d ∈ step.dependsOn, record = .skipped step.id c.host .dependencyNotCompleted
      ("dependency " ++ Text.quoted d ++ " did not complete") ∧ ¬Done earlier d := by
  cases h with
  | waiting hgoing hasked hsplit hbefore hmissing =>
    exact ⟨_, hsplit ▸ List.mem_append_right _ List.mem_cons_self, rfl, hmissing⟩
  | halted | filtered | unattended | succeeded | failed =>
    simp [StepRecord.code?, StepRecord.skipped, StepRecord.skippedAs, StepErrorCode.name] at hcode

end

/--
**A list of steps is refused for the first dependency that does not stand before its step.**
Ids may be repeated.  A list is accepted just when each dependency of each of its steps is the
id of a step in the list, and of steps in front only.  Otherwise it is refused for the first
step, and the first of its dependencies, of which this is not so: as unresolved if no step has
the id, and as out of order if one has it that does not stand in front.  In a list that is
accepted a step is recorded as waiting only for steps that stood in front of it, none of which
succeeded.
-/
theorem order_refused_at_first_late (host : Host) (steps : List HostStep) :
    (orderError? host steps = none ↔
      ∀ i step, steps[i]? = some step → ∀ d ∈ step.dependsOn, StandsBefore steps i d) ∧
    (∀ e, orderError? host steps = some e ↔ ∃ i step d, FirstLate steps i step d ∧
      ((d ∉ steps.map (·.id) ∧ e = .unresolvedDependency step.id host.id d) ∨
        ((∃ j, i ≤ j ∧ (steps.map (·.id))[j]? = some d) ∧
          e = .dependencyOrder step.id host.id d))) ∧
    (orderError? host steps = none → ∀ (r : Runner) planId i step record,
      steps[i]? = some step → (r.runSteps planId host steps).1.steps[i]? = some record →
        record.code? = some StepErrorCode.dependencyNotCompleted.name →
          ∃ d ∈ step.dependsOn, record = .skipped step.id host .dependencyNotCompleted
              ("dependency " ++ Text.quoted d ++ " did not complete") ∧
            StandsBefore steps i d ∧ ¬Done ((r.runSteps planId host steps).1.steps.take i) d) := by
  refine ⟨orderError?_eq_none_iff_standsBefore, fun e => orderError?_eq_some_iff_firstLate, ?_⟩
  intro haccepted r planId i step record hstep hrecord hcode
  have hbecomes := (Runner.runFrom_becomes .start hstep).mp hrecord
  obtain ⟨d, hd, hrecord, hmissing⟩ := hbecomes.exists_of_waiting hcode
  exact ⟨d, hd, hrecord, orderError?_eq_none_iff_standsBefore.mp haccepted i step hstep d hd,
    hmissing⟩

/-- A step that does nothing, and waits for these. -/
def awaiting (id : String) (dependsOn : List String) : HostStep :=
  { HostStep.ofStep (.bare id .zero .noop .fleet) with dependsOn := dependsOn }

/-- A step that waits for two steps of one id, both in front of it. -/
def bothBefore : List HostStep := [awaiting "b" [], awaiting "b" [], awaiting "c" ["b"]]

/-- A step that nobody carries out is waited for by the last step, which names it. -/
theorem order_refused_at_first_late_of_bothBefore :
    orderError? (.named "h") bothBefore = none ∧
      ∃ record, (Runner.runSteps ⟨.empty, .default, ""⟩ "p" (.named "h") bothBefore).1.steps[2]? =
          some record ∧
        record.code? = some "DEPENDENCY_NOT_COMPLETED" ∧ StandsBefore bothBefore 2 "b" ∧
        ¬Done ((Runner.runSteps ⟨.empty, .default, ""⟩ "p" (.named "h") bothBefore).1.steps.take 2)
          "b" := by
  have haccepted : orderError? (.named "h") bothBefore = none := by decide +kernel
  obtain ⟨record, hrecord, hcode⟩ : ∃ record,
      (Runner.runSteps ⟨.empty, .default, ""⟩ "p" (.named "h") bothBefore).1.steps[2]? =
        some record ∧ record.code? = some "DEPENDENCY_NOT_COMPLETED" :=
    ⟨_, by cbv, by cbv⟩
  obtain ⟨d, hd, -, hstands, hmissing⟩ := (order_refused_at_first_late _ _).2.2 haccepted
    _ _ 2 (awaiting "c" ["b"]) record rfl hrecord hcode
  obtain rfl := List.mem_singleton.mp hd
  exact ⟨haccepted, record, hrecord, hcode, hstands, hmissing⟩

/-- One step of the id in front is not enough when another comes later. -/
example : orderError? (.named "h") [awaiting "b" [], awaiting "c" ["b"], awaiting "b" []] =
    some (.dependencyOrder "c" "h" "b") := by
  decide +kernel

end FleetPlan
