/-
Plans that were put together survive being encoded and decoded, but for null inputs.

Inputs of a step are a payload or nothing, and a payload may be any document.  The
document null is one of them, yet in an encoded plan null stands for no inputs.  So two
steps are encoded alike when the inputs of one are null and the other has none, and it is
the step without inputs that is decoded.  `Plan.withoutNullInputs` is the plan that comes
back, and it is the plan that was encoded just when no inputs were null.
-/
import FleetPlan.Proofs.Codec

namespace FleetPlan

open Json

namespace Json

/-- Members are laid out alike when their values are and the same ones are left out. -/
theorem Fields.layMembers_write_congr {L : Layout} {level : Nat} {α β π : Type} {name : String}
    {presence : Presence α} {shape : Shape α} {rest : Fields β π} {a a' : α} {b b' : β}
    (hhides : presence.hides a = presence.hides a')
    (ha : (shape.write a).lay L level = (shape.write a').lay L level)
    (hb : Document.layMembers L level (rest.write b) = Document.layMembers L level (rest.write b')) :
    Document.layMembers L level ((field name presence shape rest).write (a, b)) =
      Document.layMembers L level ((field name presence shape rest).write (a', b')) := by
  rw [Fields.write, Fields.write, hhides]
  split
  · exact hb
  · rw [Document.layMembers, Document.layMembers, ha, hb]

end Json

/-- The inputs that a document keeps: null is as good as none. -/
def keptInputs (inputs : Option Payload) : Option Payload := inputs.filter (·.text ≠ "null")

theorem portable_keptInputs {inputs : Option Payload} (h : ∀ p ∈ inputs, p.WellFormed) :
    Portable (keptInputs inputs) := by
  intro p hp
  obtain ⟨hmem, hne⟩ := Option.mem_filter_iff.mp hp
  exact ⟨h p hmem, of_decide_eq_true hne⟩

theorem keptInputs_eq_self_iff {inputs : Option Payload} :
    keptInputs inputs = inputs ↔ inputs ≠ some ⟨"null"⟩ := by
  cases inputs with
  | none => simp [keptInputs]
  | some p =>
    obtain ⟨text⟩ := p
    by_cases h : text = "null" <;> simp [keptInputs, h]

namespace Step

def withoutNullInputs (s : Step) : Step := { s with inputs := keptInputs s.inputs }

theorem withoutNullInputs_eq_self_iff {s : Step} :
    s.withoutNullInputs = s ↔ s.inputs ≠ some ⟨"null"⟩ := by
  rw [← keptInputs_eq_self_iff]
  constructor
  · intro h
    exact congrArg Step.inputs h
  · intro h
    unfold withoutNullInputs
    rw [h]

/-- Null is written as no inputs are. -/
theorem lay_write_keptInputs (L : Layout) (level : Nat) (inputs : Option Payload) :
    (Shape.payload.nullable.write (keptInputs inputs)).lay L level =
      (Shape.payload.nullable.write inputs).lay L level := by
  by_cases h : inputs = some ⟨"null"⟩
  · rw [h]
    rfl
  · rw [keptInputs_eq_self_iff.mpr h]

/-- A step with null inputs is written as one without inputs. -/
theorem lay_write_withoutNullInputs (L : Layout) (level : Nat) (s : Step) :
    (shape.write s.withoutNullInputs).lay L level = (shape.write s).lay L level := by
  have hinputs := lay_write_keptInputs L (level + 1) s.inputs
  rw [shape, Shape.write, Shape.write, Document.lay, Document.lay]
  refine congrArg (L.block level Ascii.openBrace Ascii.closeBrace) ?_
  iterate 5 refine Fields.layMembers_write_congr rfl rfl ?_
  exact Fields.layMembers_write_congr rfl hinputs rfl

end Step

namespace Plan

/-- The plan with no inputs in place of null ones. -/
def withoutNullInputs (plan : Plan) : Plan :=
  { plan with steps := plan.steps.map Step.withoutNullInputs }

theorem withoutNullInputs_eq_self_iff {plan : Plan} :
    plan.withoutNullInputs = plan ↔ ∀ s ∈ plan.steps, s.inputs ≠ some ⟨"null"⟩ := by
  have hsteps : plan.withoutNullInputs = plan ↔
      plan.steps.map Step.withoutNullInputs = plan.steps := by
    constructor
    · intro h
      exact congrArg Plan.steps h
    · intro h
      unfold withoutNullInputs
      rw [h]
  rw [hsteps]
  conv_lhs => rw [← List.map_id plan.steps, List.map_map]
  rw [List.map_inj_left]
  exact forall₂_congr fun s _ => Step.withoutNullInputs_eq_self_iff

theorem octets_encode_withoutNullInputs (plan : Plan) :
    Text.octets plan.withoutNullInputs.encode = Text.octets plan.encode := by
  have hsteps : ((Shape.list Step.shape).write (plan.steps.map Step.withoutNullInputs)).lay .lines 1 =
      ((Shape.list Step.shape).write plan.steps).lay .lines 1 := by
    rw [Shape.write, Shape.write, Document.lay, Document.lay, Document.layItems_eq,
      Document.layItems_eq, List.map_map, List.map_map, List.map_map]
    refine congrArg _ (List.map_congr_left fun s _ => ?_)
    exact Step.lay_write_withoutNullInputs .lines 2 s
  unfold encode
  rw [octets_pretty, octets_pretty, shape, Shape.write, Shape.write, Document.lay, Document.lay]
  refine congrArg (Layout.lines.block 0 Ascii.openBrace Ascii.closeBrace · ++ [0x0a]) ?_
  iterate 3 refine Fields.layMembers_write_congr rfl rfl ?_
  exact Fields.layMembers_write_congr rfl hsteps rfl

/--
A plan as producers put it together: it is of the current version, and the inputs of its
steps are payloads made from texts.  Everything else is up to the producer.
-/
structure Produced (plan : Plan) : Prop where
  version : plan.version = schemaVersion
  inputs : ∀ s ∈ plan.steps, ∀ p ∈ s.inputs, ∃ text, Payload.ofText text = .ok p

/--
**What comes back of a plan that was put together.**  Its document is decoded to the plan
with no inputs in place of null ones.  That is the plan itself just when no inputs are
null.
-/
theorem decode_encode_produced {plan : Plan} (h : plan.Produced) :
    decode (Text.octets plan.encode) = .ok plan.withoutNullInputs ∧
      (decode (Text.octets plan.encode) = .ok plan ↔
        ∀ s ∈ plan.steps, s.inputs ≠ some ⟨"null"⟩) := by
  have hportable : ∀ s ∈ plan.withoutNullInputs.steps, Portable s.inputs := by
    intro t ht
    obtain ⟨s, hs, rfl⟩ := List.mem_map.mp ht
    refine portable_keptInputs fun p hp => ?_
    obtain ⟨text, htext⟩ := h.inputs s hs p hp
    exact Payload.wellFormed_of_ofText htext
  have hdecode : decode (Text.octets plan.encode) = .ok plan.withoutNullInputs := by
    rw [← octets_encode_withoutNullInputs]
    exact decode_encode h.version hportable
  refine ⟨hdecode, ?_⟩
  rw [hdecode, ← withoutNullInputs_eq_self_iff, Except.ok.injEq]

/-- A plan whose first step has null for inputs and whose second one has a list of two lines. -/
def nullAndList : Plan :=
  { Plan.bare "p" with steps := [
      { Step.bare "s" .zero .noop .fleet with inputs := some ⟨"null"⟩ },
      { Step.bare "t" .zero .noop .fleet with inputs := some ⟨"[1,\n null]"⟩ }] }

theorem nullAndList_produced : nullAndList.Produced := by
  refine ⟨rfl, ?_⟩
  intro s hs p hp
  rcases List.mem_pair.mp hs with rfl | rfl
  · exact ⟨" null\n", by rw [← Option.some.inj hp]; decide +kernel⟩
  · exact ⟨"[1,\n null]", by rw [← Option.some.inj hp]; decide +kernel⟩

/-- The null inputs do not come back, the others do. -/
theorem decode_encode_produced_of_nullAndList : nullAndList.Produced ∧ ∃ plan,
    decode (Text.octets nullAndList.encode) = .ok plan ∧ plan ≠ nullAndList ∧
      plan.steps.map (·.inputs) = [none, some ⟨"[1,\n null]"⟩] := by
  refine ⟨nullAndList_produced, _, (decode_encode_produced nullAndList_produced).1, ?_, rfl⟩
  intro heq
  have hinputs := withoutNullInputs_eq_self_iff.mp heq
  exact hinputs _ List.mem_cons_self rfl

/-- A plan that was put together need not come back. -/
theorem decode_drops_null_inputs :
    nullAndList.Produced ∧ decode (Text.octets nullAndList.encode) ≠ .ok nullAndList := by
  refine ⟨nullAndList_produced, fun h => ?_⟩
  have hcomputed : (decode (Text.octets nullAndList.encode)).toOption.map
      (fun plan => plan.steps.map (·.inputs)) = some [none, some ⟨"[1,\n null]"⟩] := by
    decide +kernel
  rw [h] at hcomputed
  exact absurd hcomputed (by decide)

end Plan

end FleetPlan
