/-
One written form for each plan.

A document may be laid out in many ways: members in any order, names given twice, records
as lists, text with or without escapes, space anywhere.  Whatever it looks like, once it is
decoded, the plan is written in one form, and this form is decoded to the same plan, so
writing it again changes nothing.  `Canonical` is what this means of a decoder and an
encoder, and `decode_canonical` says it of plans and of host plans.

Only payloads are not given another form.  They are stretches of the document they were
decoded from and of the one they are encoded to, their own space and line breaks included.
-/
import FleetPlan.Proofs.Codec
import FleetPlan.Proofs.Json.Verbatim

namespace FleetPlan

open Json

/-! ### What a codec does to what it accepts -/

/--
A value with one written form, decoded from the source.  The form is decoded to the value,
so encoding what was decoded gives the form again, and what the value keeps as written
stands in the source and in the form as it is.
-/
structure Canonical {α : Type} (decode : Octets → Except DecodeError α) (encode : α → String)
    (payloads : α → List Payload) (source : Octets) (a : α) : Prop where
  decoded : decode (Text.octets (encode a)) = .ok a
  stable : ∀ again, decode (Text.octets (encode a)) = .ok again → encode again = encode a
  verbatim : ∀ p ∈ payloads a,
    Text.octets p.text <:+: source ∧ Text.octets p.text <:+: Text.octets (encode a)

section

variable {α : Type} {source : Octets} {a : α}

theorem Canonical.of_decoded {decode : Octets → Except DecodeError α} {encode : α → String}
    {payloads : α → List Payload} (hdecoded : decode (Text.octets (encode a)) = .ok a)
    (hverbatim : ∀ p ∈ payloads a,
      Text.octets p.text <:+: source ∧ Text.octets p.text <:+: Text.octets (encode a)) :
    Canonical decode encode payloads source a := by
  refine ⟨hdecoded, ?_, hverbatim⟩
  intro again hagain
  rw [Except.ok.inj (hagain.symm.trans hdecoded)]

/-- A text that is kept stands in both documents. -/
theorem infix_of_decodeStrict {shape : Shape α} (hlawful : shape.Lawful)
    (hsilent : shape.DefaultsSilent) (h : decodeStrict shape source = .ok a) {t : String}
    (ht : (shape.write a).Holds t) :
    Text.octets t <:+: source ∧
      Text.octets t <:+: Text.octets ((shape.write a).pretty ++ "\n") := by
  refine ⟨shape.standsIn_of_readFrom hlawful hsilent (readFrom_of_decodeStrict h) t ht, ?_⟩
  rw [octets_pretty]
  exact (ht.infix_lay .lines 0).trans (List.prefix_append _ _).isInfix

end

/-! ### The defaults of the shapes -/

namespace Json.Presence

@[simp] theorem defaultSilent_required {α : Type} (shape : Shape α) :
    required.DefaultSilent shape :=
  fun _ h => absurd h (by simp [inObject])

@[simp] theorem defaultSilent_optional_none {α : Type} (shape : Shape α) :
    (optional none).DefaultSilent shape.nullable := by
  rintro _ ⟨⟩
  exact Document.silent_null

@[simp] theorem defaultSilent_unlessEmpty : unlessEmpty.DefaultSilent .text := by
  rintro _ ⟨⟩
  exact Document.silent_text _

@[simp] theorem defaultSilent_unlessNil : unlessNil.DefaultSilent .texts := by
  rintro _ ⟨⟩
  exact Document.silent_nil

@[simp] theorem defaultSilent_unlessBare : unlessBare.DefaultSilent .annotations := by
  rintro _ ⟨⟩
  exact Document.silent_bare

end Json.Presence

namespace Json.Shape

@[simp] theorem defaultsSilent_texts : texts.DefaultsSilent := by simp [texts, DefaultsSilent]

@[simp] theorem defaultsSilent_annotations : annotations.DefaultsSilent := by
  simp [annotations, DefaultsSilent]

end Json.Shape

@[simp] theorem Host.defaultsSilent_shape : shape.DefaultsSilent := by
  simp [shape, Shape.DefaultsSilent, Fields.DefaultsSilent]

@[simp] theorem ResourceRef.defaultsSilent_shape : shape.DefaultsSilent := by
  simp [shape, Shape.DefaultsSilent, Fields.DefaultsSilent]

@[simp] theorem Step.defaultsSilent_actionShape : actionShape.DefaultsSilent := by
  simp [actionShape, Shape.DefaultsSilent]

@[simp] theorem Step.defaultsSilent_shape : shape.DefaultsSilent := by
  simp [shape, Shape.DefaultsSilent, Fields.DefaultsSilent]

@[simp] theorem HostStep.defaultsSilent_shape : shape.DefaultsSilent := by
  simp [shape, Shape.DefaultsSilent, Fields.DefaultsSilent]

theorem Plan.defaultsSilent_shape : shape.DefaultsSilent := by
  simp [shape, Shape.DefaultsSilent, Fields.DefaultsSilent]

theorem HostPlan.defaultsSilent_shape : shape.DefaultsSilent := by
  simp [shape, Shape.DefaultsSilent, Fields.DefaultsSilent]

/-! ### Plans -/

namespace Json.Fields

variable {α β π : Type} {name : String} {presence : Presence α} {shape : Shape α}
  {rest : Fields β π} {a : α} {b : β}

/-- A field that is not hidden is written as a member. -/
theorem mem_write_self (h : presence.hides a = false) :
    (name, shape.write a) ∈ (field name presence shape rest).write (a, b) := by
  rw [Fields.write, h]
  exact List.mem_cons_self

theorem mem_write_rest {e : String × Document} (h : e ∈ rest.write b) :
    e ∈ (field name presence shape rest).write (a, b) := by
  rw [Fields.write]
  split
  · exact h
  · exact List.mem_cons_of_mem _ h

end Json.Fields

section

open Json.Fields

variable {p : Payload}

theorem holds_nullable_payload {inputs : Option Payload} (h : inputs = some p) :
    (Shape.payload.nullable.write inputs).Holds p.text := by
  rw [h]
  exact .verbatim

/-- The inputs of a step are written as they are. -/
theorem Step.holds_inputs {s : Step} (h : s.inputs = some p) : (shape.write s).Holds p.text := by
  refine .member ("inputs", _) ?_ (holds_nullable_payload h)
  exact mem_write_rest <| mem_write_rest <| mem_write_rest <| mem_write_rest <|
    mem_write_rest <| mem_write_self rfl

theorem HostStep.holds_inputs {s : HostStep} (h : s.inputs = some p) :
    (shape.write s).Holds p.text := by
  refine .member ("inputs", _) ?_ (holds_nullable_payload h)
  exact mem_write_rest <| mem_write_rest <| mem_write_rest <| mem_write_rest <|
    mem_write_self rfl

/-- The inputs of all steps. -/
def Plan.payloads (plan : Plan) : List Payload := plan.steps.filterMap (·.inputs)

theorem Plan.holds_payload {plan : Plan} (hp : p ∈ plan.payloads) :
    (shape.write plan).Holds p.text := by
  obtain ⟨s, hs, hinputs⟩ := List.mem_filterMap.mp hp
  have hsteps : ((Shape.list Step.shape).write plan.steps).Holds p.text :=
    .item (List.mem_map_of_mem hs) (Step.holds_inputs hinputs)
  refine .member ("steps", _) ?_ hsteps
  exact mem_write_rest <| mem_write_rest <| mem_write_rest <| mem_write_self rfl

/-- The inputs of all steps. -/
def HostPlan.payloads (plan : HostPlan) : List Payload := plan.steps.filterMap (·.inputs)

theorem HostPlan.holds_payload {plan : HostPlan} (hp : p ∈ plan.payloads) :
    (shape.write plan).Holds p.text := by
  obtain ⟨s, hs, hinputs⟩ := List.mem_filterMap.mp hp
  have hsteps : ((Shape.list HostStep.shape).write plan.steps).Holds p.text :=
    .item (List.mem_map_of_mem hs) (HostStep.holds_inputs hinputs)
  refine .member ("steps", _) ?_ hsteps
  exact mem_write_rest <| mem_write_rest <| mem_write_rest <| mem_write_self rfl

end

/--
**Every plan that is decoded has one written form.**  The same holds of host plans,
whatever name they are asked for by.
-/
theorem decode_canonical :
    (∀ bytes plan, Plan.decode bytes = .ok plan →
      Canonical Plan.decode Plan.encode Plan.payloads bytes plan) ∧
    ∀ bytes name plan, HostPlan.decode bytes name = .ok plan → ∀ name',
      Canonical (HostPlan.decode · name') HostPlan.encode HostPlan.payloads bytes plan := by
  constructor
  · intro bytes plan hdecode
    obtain ⟨hread, hversion⟩ := Plan.decode_eq_ok_iff.mp hdecode
    refine .of_decoded (Plan.decode_encode hversion (Plan.portable_of_decode hdecode)) ?_
    intro p hp
    exact infix_of_decodeStrict Plan.lawful_shape Plan.defaultsSilent_shape hread
      (Plan.holds_payload hp)
  · intro bytes name plan hdecode name'
    obtain ⟨hread, hversion⟩ := HostPlan.decode_eq_ok_iff.mp hdecode
    refine .of_decoded
      (HostPlan.decode_encode hversion (HostPlan.portable_of_decode hdecode) name') ?_
    intro p hp
    exact infix_of_decodeStrict HostPlan.lawful_shape HostPlan.defaultsSilent_shape hread
      (HostPlan.holds_payload hp)

/--
A plan with its members in another order, a step and a host given as lists, an escape
that is not needed and a payload over two lines.
-/
def loosePlan : String :=
  "\x7b\"steps\":[[\"s\",-9223372036854775808,\"noop\"," ++
    "\x7b\"provider\":\"\",\"kind\":\"\",\"name\":\"\"\x7d," ++
    "[\"\\u0068\"],[ 1,\n2 ]]],\"id\":\"p\",\"version\":\"v1\"\x7d"

/-- The same plan as it is written. -/
def tidyPlan : String :=
  "\x7b\n  \"version\": \"v1\",\n  \"id\": \"p\",\n  \"steps\": [\n    \x7b\n" ++
    "      \"id\": \"s\",\n      \"index\": -9223372036854775808,\n" ++
    "      \"action\": \"noop\",\n      \"target\": \x7b\n        \"kind\": \"\",\n" ++
    "        \"name\": \"\",\n        \"provider\": \"\"\n      \x7d,\n" ++
    "      \"host\": \x7b\n        \"logicalId\": \"h\"\n      \x7d,\n" ++
    "      \"inputs\": [ 1,\n2 ]\n    \x7d\n  ]\n\x7d\n"

/-- The loose document and the tidy one are decoded to the same plan, and both hold its payload. -/
theorem decode_canonical_of_loosePlan : ∃ plan,
    Plan.decode (Text.octets loosePlan) = .ok plan ∧ plan.encode = tidyPlan ∧
      Plan.decode (Text.octets tidyPlan) = .ok plan ∧ plan.payloads.map (·.text) = ["[ 1,\n2 ]"] ∧
      ∀ p ∈ plan.payloads, Text.octets p.text <:+: Text.octets loosePlan ∧
        Text.octets p.text <:+: Text.octets tidyPlan := by
  have hcomputed : (Plan.decode (Text.octets loosePlan)).toOption.map
      (fun plan => (plan.encode, plan.payloads.map (·.text))) = some (tidyPlan, ["[ 1,\n2 ]"]) := by
    decide +kernel
  cases hdecode : Plan.decode (Text.octets loosePlan) with
  | error e => simp [hdecode, Except.toOption] at hcomputed
  | ok plan =>
    rw [hdecode] at hcomputed
    obtain ⟨htidy, htexts⟩ := Prod.mk.inj (Option.some.inj hcomputed)
    have hcanonical := decode_canonical.1 _ plan hdecode
    have hverbatim := hcanonical.verbatim
    rw [htidy] at hverbatim
    exact ⟨plan, rfl, htidy, htidy ▸ hcanonical.decoded, htexts, hverbatim⟩

end FleetPlan
