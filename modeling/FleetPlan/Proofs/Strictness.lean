/-
What strict decoding lets through.

A plan is a tree of closed records, and what is in an accepted document can be told object by
object: `Plan.spots` and `HostPlan.spots` list where in a document an object may stand, by the
fields on the way.  At most places it is a closed record.  Names of any kind are found in the
inputs, in what is annotated and in labels, and an action may be an object of one member, its
name, with null for the value.  A member that is put into a record from outside its schema is
told by its name, wherever the record stands.
-/
import FleetPlan.Proofs.Json.Foreign
import FleetPlan.Proofs.Surroundings

namespace FleetPlan

open Json

/-! ### Places of a document -/

/-- A reference to a resource. -/
def ResourceRef.spot : Spot :=
  .record true ["kind", "name", "provider", "namespace"] ["kind", "name", "provider"]

def Host.spot : Spot := .record true ["logicalId", "labels"] ["logicalId"]

def Step.actionSpot : Spot := .choice (Action.all.map Action.name)

/-- Where in a plan an object may stand. -/
def Plan.spots : List (List String × Spot) := [
  ([], .record true ["version", "id", "summary", "steps", "meta"] ["version", "id", "steps"]),
  (["steps"], .record true
    ["id", "index", "action", "target", "host", "inputs", "dependsOn", "meta"]
    ["id", "index", "action", "target", "host"]),
  (["steps", "action"], Step.actionSpot),
  (["steps", "target"], ResourceRef.spot),
  (["steps", "host"], Host.spot),
  (["steps", "host", "labels"], .free),
  (["steps", "inputs"], .free),
  (["steps", "meta"], .free),
  (["meta"], .free)]

/-- Where in a host plan an object may stand. -/
def HostPlan.spots : List (List String × Spot) := [
  ([], .record true ["version", "planId", "host", "steps", "meta"]
    ["version", "planId", "host", "steps"]),
  (["host"], Host.spot),
  (["host", "labels"], .free),
  (["steps"], .record true
    ["id", "index", "action", "target", "inputs", "dependsOn", "meta"]
    ["id", "index", "action", "target"]),
  (["steps", "action"], Step.actionSpot),
  (["steps", "target"], ResourceRef.spot),
  (["steps", "inputs"], .free),
  (["steps", "meta"], .free),
  (["meta"], .free)]

theorem Plan.spots_shape : shape.spots = spots := by rfl

theorem HostPlan.spots_shape : shape.spots = spots := by rfl

/-! ### What is accepted -/

section

variable {α : Type} {shape : Shape α} {target planId : String} {a : α} {bytes bytes' : Octets}
  {decode : Octets → Except DecodeError α}

/-- What is accepted was read as the shape. -/
theorem DecodesBy.read_of_ok (h : DecodesBy shape target planId decode) (hok : decode bytes = .ok a) :
    ∃ b r, taken? (shape.read bytes) = some (b, r) ∧ skipSpace r = [] := by
  cases hread : decodeStrict shape bytes with
  | error cause =>
    rw [h.refused hread] at hok
    cases hok
  | ok b => exact ⟨b, decodeStrict_eq_ok_iff.mp hread⟩

/-- The tree of an accepted document fits, whatever tree that is. -/
theorem DecodesBy.fits (h : DecodesBy shape target planId decode) (hlawful : shape.Lawful)
    (hok : decode bytes = .ok a) {x : Tree} (hx : x.Writes bytes) : shape.Fits x := by
  obtain ⟨b, r, hread, -⟩ := h.read_of_ok hok
  obtain ⟨m, hspaced, hblank⟩ := hx
  have hm := delimited_of_blank hblank
  obtain rfl := shape.skips.rest_eq hspaced hm hread
  exact (shape.reads_iff hlawful x bytes r hspaced hm).mp ⟨b, hread⟩

/-- An accepted document is a tree. -/
theorem DecodesBy.exists_tree (h : DecodesBy shape target planId decode)
    (hok : decode bytes = .ok a) : ∃ x : Tree, x.Writes bytes := by
  obtain ⟨b, r, hread, hblank⟩ := h.read_of_ok hok
  obtain ⟨x, hx⟩ := shape.skips.exists_tree hread
  exact ⟨x, r, hx, hblank⟩

/-- A foreign member is told by its name. -/
theorem DecodesBy.foreign (h : DecodesBy shape target planId decode) (hlawful : shape.Lawful)
    (c : Tree.Context) {i : Insertion} {names : List String} (hfits : shape.Fits (c.fill i.old))
    (hnew : i.Foreign names (shape.locate c)) (hwrites : (c.fill i.new).Writes bytes) :
    decode bytes = .error ⟨target, planId, .unknownField (.unknownMember i.key names)⟩ := by
  obtain ⟨r, hspaced, hblank⟩ := hwrites
  have hread := shape.read_foreign hlawful c hfits hnew bytes r hspaced (delimited_of_blank hblank)
  refine h.refused ?_
  unfold decodeStrict
  rw [hread]
  rfl

/-- What can be said of an accepted document object by object.  There is a tree of it; each
object of a tree of it stands at one of the places and is named as the place allows; and with
one member more in a closed record, in any layout, it is refused by the name of that member. -/
structure Strict (shape : Shape α) (spots : List (List String × Spot)) (target planId : String)
    (decode : Octets → Except DecodeError α) (bytes : Octets) : Prop where
  written : ∃ x : Tree, x.Writes bytes
  named : ∀ (c : Tree.Context) ms, (c.fill (.object ms)).Writes bytes →
    ∃ e ∈ spots, shape.locate c = some e ∧ e.2.Allows ms
  foreign : ∀ (c : Tree.Context) (i : Insertion) names, (c.fill i.old).Writes bytes →
    i.Foreign names (shape.locate c) → ∀ bytes', (c.fill i.new).Writes bytes' →
      decode bytes' = .error ⟨target, planId, .unknownField (.unknownMember i.key names)⟩

theorem DecodesBy.strict (h : DecodesBy shape target planId decode) (hlawful : shape.Lawful)
    (hok : decode bytes = .ok a) : Strict shape shape.spots target planId decode bytes where
  written := h.exists_tree hok
  named c ms hx := by
    obtain ⟨e, hlocate, hallows⟩ := shape.exists_locate c (h.fits hlawful hok hx)
    exact ⟨e, shape.mem_spots_of_locate c hlocate, hlocate, hallows⟩
  foreign c _ _ hx hnew _ hx' := h.foreign hlawful c (h.fits hlawful hok hx) hnew hx'

end

/--
**No foreign or repeated member survives strict decoding, at any level.**  In an accepted plan
or host plan each object that stands where the schema has a record has only names of the
record, once each, and all that are demanded; other names are found only inside what is free
and as the single name of an action, with null for its value.  With one member of another
name in one of the records, at any position and with any value, the document is refused for
an unknown field.
-/
theorem decode_strict (bytes : Octets) :
    (∀ plan, Plan.decode bytes = .ok plan →
      Strict Plan.shape Plan.spots "plan" "" Plan.decode bytes) ∧
    ∀ planId plan, HostPlan.decode bytes planId = .ok plan →
      Strict HostPlan.shape HostPlan.spots "host plan" planId (HostPlan.decode · planId) bytes := by
  constructor
  · intro plan hplan
    rw [← Plan.spots_shape]
    exact Plan.decodesBy.strict Plan.lawful_shape hplan
  · intro planId plan hplan
    rw [← HostPlan.spots_shape]
    exact (HostPlan.decodesBy planId).strict HostPlan.lawful_shape hplan

/-! ### A plan whose action is an object -/

namespace Json

theorem taken?_skipText_textTail (s : String) : taken? (skipText (textTail s)) = some ((), []) := by
  have hread := taken?_readText s []
  rw [List.append_nil] at hread
  exact skipText_of_readText hread

/-- A name, written as the library writes texts. -/
def NameToken.ofText (s : String) : NameToken := ⟨textTail s, taken?_skipText_textTail s⟩

/-- A text, written as the library writes texts. -/
def Tree.ofText (s : String) : Tree :=
  .scalar ⟨Ascii.quote :: textTail s, by
    rw [Scan.taken?_skipScalar_cons, if_pos rfl, taken?_skipText_textTail]⟩

def Tree.null : Tree := .scalar ⟨Text.octets "null", by decide +kernel⟩

def Tree.zero : Tree := .scalar ⟨Text.octets "0", by decide +kernel⟩

end Json

namespace Plan

/-- A plan of one step on this host, with an action that is an object. -/
def textOnHost (host : String) : String :=
  "\x7b\"version\":\"v1\",\"id\":\"p\",\"steps\":[\x7b\"id\":\"s\",\"index\":0," ++
  "\"action\":\x7b\"noop\":null\x7d,\"target\":\x7b\"kind\":\"\",\"name\":\"\"," ++
  "\"provider\":\"\"\x7d,\"host\":" ++ host ++ "\x7d]\x7d"

def namedAction : String := textOnHost "\x7b\"logicalId\":\"\"\x7d"

/-- The same with a member of the host that no schema has. -/
def foreignHost : String := textOnHost "\x7b\"logicalId\":\"\", \"zone\":[0] \x7d"

/-- Where the step stands. -/
def inStep (c : Tree.Context) : Tree.Context :=
  .member [(.ofText "version", .ofText "v1"), (.ofText "id", .ofText "p")] (.ofText "steps")
    (.item [] c []) []

def targetMember : NameToken × Tree :=
  (.ofText "target", .object [(.ofText "kind", .ofText ""), (.ofText "name", .ofText ""),
    (.ofText "provider", .ofText "")])

def hostMember : NameToken × Tree := (.ofText "logicalId", .ofText "")

/-- Where the action of the step stands. -/
def atAction : Tree.Context :=
  inStep (.member [(.ofText "id", .ofText "s"), (.ofText "index", .zero)] (.ofText "action") .hole
    [targetMember, (.ofText "host", .object [hostMember])])

/-- Where its host stands. -/
def atHost : Tree.Context :=
  inStep (.member [(.ofText "id", .ofText "s"), (.ofText "index", .zero),
    (.ofText "action", .object [(.ofText "noop", .null)]), targetMember] (.ofText "host") .hole [])

/-- The member that the host does not have. -/
def zone : Insertion := ⟨[hostMember], .ofText "zone", .list [.zero], [], "zone", by decide +kernel⟩

end Plan

/-- In the place of a host a member `zone` is refused. -/
theorem decode_strict_of_zone :
    (∃ plan, Plan.decode (Text.octets Plan.namedAction) = .ok plan) ∧
      Plan.decode (Text.octets Plan.foreignHost) =
        .error ⟨"plan", "", .unknownField (.unknownMember "zone" ["logicalId", "labels"])⟩ := by
  have hsome : (Plan.decode (Text.octets Plan.namedAction)).toOption.isSome = true := by
    decide +kernel
  obtain ⟨plan, hplan⟩ := Option.isSome_iff_exists.mp hsome
  have hok := toOption_eq_some_iff.mp hplan
  refine ⟨⟨plan, hok⟩, ?_⟩
  exact ((decode_strict _).1 plan hok).foreign Plan.atHost Plan.zone ["logicalId", "labels"]
    (by decide +kernel) ⟨["steps", "host"], ["logicalId"], by decide +kernel, by decide +kernel⟩ _
    (by decide +kernel)

/-- A name outside of the records and of what is free: that of an action which is an object. -/
theorem decode_takes_named_action :
    (∃ plan, Plan.decode (Text.octets Plan.namedAction) = .ok plan) ∧
      (Plan.atAction.fill (.object [(.ofText "noop", .null)])).Writes
        (Text.octets Plan.namedAction) ∧
      Tree.keys [(.ofText "noop", .null)] = ["noop"] ∧
      ∀ e, Plan.shape.locate Plan.atAction = some e →
        e.2 ≠ .free ∧ ∀ closed names demanded, e.2 ≠ .record closed names demanded := by
  have hsome : (Plan.decode (Text.octets Plan.namedAction)).toOption.isSome = true := by
    decide +kernel
  obtain ⟨plan, hplan⟩ := Option.isSome_iff_exists.mp hsome
  refine ⟨⟨plan, toOption_eq_some_iff.mp hplan⟩, by decide +kernel, by decide +kernel, ?_⟩
  intro e he
  have hlocate : Plan.shape.locate Plan.atAction = some (["steps", "action"], Step.actionSpot) := by
    decide +kernel
  rw [hlocate, Option.some.injEq] at he
  rw [← he]
  exact ⟨Spot.noConfusion, fun _ _ _ => Spot.noConfusion⟩

end FleetPlan
