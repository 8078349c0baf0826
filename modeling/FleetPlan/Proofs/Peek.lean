/-
The lenient reader names no other plan.

Of the id of a host plan there are two readers: the strict decoder, and `peekPlanId`, which
passes over all that is not the id.  For an accepted object they read the same member
(`planId_alone`), wherever it stands and whatever stands beside it.  An accepted list begins
with the version, which `peekPlanId` would take for the id, but it does not end there, and so
nothing is read of it.
-/
import FleetPlan.Proofs.Json.Alone
import FleetPlan.Proofs.Strictness

namespace FleetPlan.HostPlan

open Json

variable {bytes t : Octets} {plan : HostPlan} {planId : String}

theorem peekPlanId_eq_some_iff :
    peekPlanId bytes = some planId ↔ decodeStrict planIdShape bytes = .ok planId ∧ planId ≠ "" := by
  rw [← readAll_eq_ok_iff, peekPlanId]
  cases planIdShape.readAll bytes with
  | error f => simp
  | ok found =>
    simp only [Except.ok.injEq, Option.ite_none_left_eq_some, Option.some.injEq,
      String.isEmpty_iff]
    constructor
    · rintro ⟨hne, rfl⟩
      exact ⟨rfl, hne⟩
    · rintro ⟨rfl, hne⟩
      exact ⟨hne, rfl⟩

/-- **Of an object both readers take the same id.** -/
theorem planId_alone (h : decodeStrict shape bytes = .ok plan)
    (hbytes : skipSpace bytes = Ascii.openBrace :: t) :
    decodeStrict planIdShape bytes = .ok plan.planId := by
  obtain ⟨r, hread, hend⟩ := decodeStrict_eq_ok_iff.mp h
  obtain ⟨b, hplan, halone⟩ : ∃ b, plan = _ ∧ taken? (planIdShape.read bytes) = some (_, r) :=
    Shape.read_alone (.there (by decide) (.here _)) rfl hbytes hread
  rw [hplan]
  exact decodeStrict_eq_ok_iff.mpr ⟨r, halone, hend⟩

/-- A list that is a host plan has an item behind the first. -/
theorem planId_not_listed (h : decodeStrict shape bytes = .ok plan)
    (hbytes : skipSpace bytes = Ascii.openBracket :: t) :
    decodeStrict planIdShape bytes ≠ .ok planId := by
  obtain ⟨r, hread, -⟩ := decodeStrict_eq_ok_iff.mp h
  have hnone : taken? (planIdShape.read bytes) = none := Shape.read_alone_list rfl hbytes hread
  intro hpeek
  obtain ⟨r', halone, -⟩ := decodeStrict_eq_ok_iff.mp hpeek
  rw [hnone] at halone
  cases halone

/-- A list names no plan. -/
theorem peekPlanId_of_list (h : decodeStrict shape bytes = .ok plan)
    (hbytes : skipSpace bytes = Ascii.openBracket :: t) : peekPlanId bytes = none :=
  Option.eq_none_iff_forall_ne_some.mpr fun _ hpeek =>
    planId_not_listed h hbytes (peekPlanId_eq_some_iff.mp hpeek).1

/-- An object names its own plan, if the id is not empty. -/
theorem peekPlanId_of_object (h : decodeStrict shape bytes = .ok plan)
    (hbytes : skipSpace bytes = Ascii.openBrace :: t) :
    peekPlanId bytes = if plan.planId = "" then none else some plan.planId := by
  have halone := planId_alone h hbytes
  split
  · rename_i hempty
    refine Option.eq_none_iff_forall_ne_some.mpr fun planId hpeek => ?_
    obtain ⟨hpeek, hne⟩ := peekPlanId_eq_some_iff.mp hpeek
    rw [halone] at hpeek
    exact hne ((Except.ok.inj hpeek).symm.trans hempty)
  · rename_i hne
    exact peekPlanId_eq_some_iff.mpr ⟨halone, hne⟩

/--
**The lenient reader never names another plan than the one that is decoded.**  Of an accepted
document `peekPlanId` tells nothing or the id of the host plan; and if the document is an object
it tells the id just when that is not empty, wherever among the members the id stands and
whatever the others are.
-/
theorem peekPlanId_agrees (h : decode bytes planId = .ok plan) :
    (peekPlanId bytes = none ∨ peekPlanId bytes = some plan.planId) ∧
      ∀ ms, (Tree.object ms).Writes bytes →
        (peekPlanId bytes = some plan.planId ↔ plan.planId ≠ "") := by
  have hread := (decode_eq_ok_iff.mp h).1
  constructor
  · obtain ⟨r, htaken, -⟩ := decodeStrict_eq_ok_iff.mp hread
    obtain ⟨t, hbrace | hbracket⟩ := Shape.opened_of_read htaken
    · rw [peekPlanId_of_object hread hbrace]
      exact ite_eq_or_eq _ _ _
    · exact .inl (peekPlanId_of_list hread hbracket)
  · rintro ms ⟨r, hspaced, -⟩
    rw [Tree.tokens] at hspaced
    obtain ⟨t, hbrace, -⟩ := hspaced
    rw [peekPlanId_of_object hread hbrace]
    simp

/-! ### An id at the end -/

/-- The members of a host plan that ends with its id; its one step has inputs with a member of
the same name. -/
def idAtEnd : List (NameToken × Tree) := [
  (.ofText "version", .ofText "v1"),
  (.ofText "host", .object [(.ofText "logicalId", .ofText "web")]),
  (.ofText "steps", .list [.object [(.ofText "id", .ofText "s"), (.ofText "index", .zero),
    (.ofText "action", .ofText "noop"),
    (.ofText "target", .object [(.ofText "kind", .ofText ""), (.ofText "name", .ofText ""),
      (.ofText "provider", .ofText "")]),
    (.ofText "inputs", .object [(.ofText "planId", .ofText "other")])]]),
  (.ofText "planId", .ofText "p")]

def textOfIdAtEnd : String :=
  "\x7b\"version\":\"v1\",\"host\":\x7b\"logicalId\":\"web\"\x7d,\"steps\":[" ++
  "\x7b\"id\":\"s\",\"index\":0,\"action\":\"noop\",\"target\":\x7b\"kind\":\"\"," ++
  "\"name\":\"\",\"provider\":\"\"\x7d,\"inputs\":\x7b\"planId\":\"other\"\x7d\x7d]," ++
  " \"planId\":\"p\"\x7d"

/-- The id is found behind a step whose inputs have a member of its name. -/
theorem peekPlanId_agrees_of_idAtEnd :
    (Tree.object idAtEnd).Writes (Text.octets textOfIdAtEnd) ∧
      ∃ plan, decode (Text.octets textOfIdAtEnd) "" = .ok plan ∧ plan.planId = "p" ∧
        peekPlanId (Text.octets textOfIdAtEnd) = some plan.planId := by
  have hwrites : (Tree.object idAtEnd).Writes (Text.octets textOfIdAtEnd) := by decide +kernel
  have hid : (decode (Text.octets textOfIdAtEnd) "").toOption.map (·.planId) = some "p" := by
    decide +kernel
  obtain ⟨plan, hplan, hid⟩ := Option.map_eq_some_iff.mp hid
  have hok := toOption_eq_some_iff.mp hplan
  have hne : plan.planId ≠ "" := by simp [hid]
  exact ⟨hwrites, plan, hok, hid, ((peekPlanId_agrees hok).2 idAtEnd hwrites).mpr hne⟩

end FleetPlan.HostPlan
