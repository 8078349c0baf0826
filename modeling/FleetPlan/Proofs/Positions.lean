/-
What stands where a plan has a record.

The wire format names its fields, but not only objects are taken: a list is read as the fields
of the record in their order, and so a field can be given by its position.  Nothing in the
decoder asks which of the two it is.  What can be said of an accepted document is that each of
its records is of one of these forms, and complete in it.
-/
import FleetPlan.Proofs.Json.Given
import FleetPlan.Proofs.Strictness

namespace FleetPlan

open Json

theorem Plan.solid_shape : shape.solid = true := by rfl

theorem HostPlan.solid_shape : shape.solid = true := by rfl

section

variable {α : Type} {shape : Shape α} {target planId : String} {a : α} {bytes : Octets}
  {decode : Octets → Except DecodeError α}

/-- There is a tree of the document, and whatever stands in a tree of it where the shape has a
record is an object with the names of that record, once each and with all that are demanded, or
a list of its fields in their order, which begins with all that are demanded. -/
structure Formed (shape : Shape α) (bytes : Octets) : Prop where
  written : ∃ x : Tree, x.Writes bytes
  forms : ∀ (c : Tree.Context) x path closed names demanded, (c.fill x).Writes bytes →
    shape.locate c = some (path, .record closed names demanded) →
      (Spot.record closed names demanded).Forms x

theorem DecodesBy.formed (h : DecodesBy shape target planId decode) (hlawful : shape.Lawful)
    (hsolid : shape.solid = true) (hok : decode bytes = .ok a) : Formed shape bytes where
  written := h.exists_tree hok
  forms c _ _ _ _ _ hx hlocate :=
    shape.forms_of_locate hsolid c (h.fits hlawful hok hx) hlocate rfl

end

/--
**Each record of an accepted document is given by name or by position.**  In an accepted plan or
host plan the value at each position of a record (the document itself, each of its steps, each
target and each host) is an object with the names of the record or a list of its fields in
their order; it is no scalar, and no other list or object.
-/
theorem decode_formed (bytes : Octets) :
    (∀ plan, Plan.decode bytes = .ok plan → Formed Plan.shape bytes) ∧
      ∀ planId plan, HostPlan.decode bytes planId = .ok plan → Formed HostPlan.shape bytes :=
  ⟨fun _ hplan => Plan.decodesBy.formed Plan.lawful_shape Plan.solid_shape hplan,
    fun planId _ hplan =>
      (HostPlan.decodesBy planId).formed HostPlan.lawful_shape HostPlan.solid_shape hplan⟩

/-! ### A plan without names -/

namespace Plan

/-- A plan of one step, with each of its records given by position. -/
def listed : String := "[\"v1\",\"p\",\"\",[[\"s\",0,\"noop\",[\"\",\"\",\"\"],[\"\"],null]]]"

/-- Where the host of its step stands. -/
def atListedHost : Tree.Context :=
  .item [.ofText "v1", .ofText "p", .ofText ""] (.item []
    (.item [.ofText "s", .zero, .ofText "noop", .list [.ofText "", .ofText "", .ofText ""]] .hole
      [.null]) []) []

theorem decode_listed : ∃ plan, decode (Text.octets listed) = .ok plan := by
  have hsome : (decode (Text.octets listed)).toOption.isSome = true := by decide +kernel
  obtain ⟨plan, hplan⟩ := Option.isSome_iff_exists.mp hsome
  exact ⟨plan, toOption_eq_some_iff.mp hplan⟩

theorem atListedHost_writes :
    (atListedHost.fill (.list [.ofText ""])).Writes (Text.octets listed) := by
  decide +kernel

theorem locate_atListedHost : shape.locate atListedHost = some (["steps", "host"], Host.spot) := by
  decide +kernel

end Plan

/-- In the place of its host stands a list of one of its two fields, the one that is demanded. -/
theorem decode_formed_of_listed :
    (∃ plan, Plan.decode (Text.octets Plan.listed) = .ok plan) ∧
      Host.spot.Forms (.list [.ofText ""]) := by
  obtain ⟨plan, hok⟩ := Plan.decode_listed
  have hforms := ((decode_formed _).1 plan hok).forms
  exact ⟨⟨plan, hok⟩, hforms _ _ _ _ _ _ Plan.atListedHost_writes Plan.locate_atListedHost⟩

/-- An accepted plan in which neither the document nor the host of its step is an object. -/
theorem decode_takes_listed :
    (∃ plan, Plan.decode (Text.octets Plan.listed) = .ok plan) ∧
      (∃ xs, (Tree.list xs).Writes (Text.octets Plan.listed)) ∧
      Plan.shape.locate .hole = some ([], .record true ["version", "id", "summary", "steps", "meta"]
        ["version", "id", "steps"]) ∧
      (Plan.atListedHost.fill (.list [.ofText ""])).Writes (Text.octets Plan.listed) ∧
      Plan.shape.locate Plan.atListedHost = some (["steps", "host"], Host.spot) :=
  ⟨Plan.decode_listed, ⟨_, Plan.atListedHost_writes⟩, by decide +kernel, Plan.atListedHost_writes,
    Plan.locate_atListedHost⟩

end FleetPlan
