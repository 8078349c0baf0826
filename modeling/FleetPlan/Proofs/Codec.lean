/-
Plans and host plans survive being encoded and decoded.

The shapes are lawful, and a plan is a valid value as soon as the inputs of its steps
are `Portable`: well-formed documents other than null, which would be read as no inputs
at all.  Whatever was decoded has only portable inputs, so it is encoded without loss.
-/
import FleetPlan.Codec
import FleetPlan.Proofs.Json.Source

namespace FleetPlan

open Json

/-! ### The presences -/

namespace Json.Presence

@[simp] theorem inObject_required {α : Type} : (required : Presence α).inObject = none := rfl

@[simp] theorem inObject_unlessNil {α : Type} :
    (unlessNil : Presence (List α)).inObject = some [] := rfl

@[simp] theorem inObject_unlessNone {α : Type} :
    (unlessNone : Presence (Option α)).inObject = some none := rfl

@[simp] theorem lawful_required {α : Type} : (required : Presence α).Lawful :=
  fun _ h => absurd h (by simp [hides])

@[simp] theorem lawful_optional {α : Type} (absent : α) : (optional absent).Lawful :=
  fun _ h => absurd h (by simp [hides])

@[simp] theorem lawful_unlessEmpty : unlessEmpty.Lawful := by
  intro s h
  have hs : s.isEmpty = true := h
  rw [String.isEmpty_iff] at hs
  rw [hs]
  rfl

@[simp] theorem lawful_unlessNil {α : Type} : (unlessNil : Presence (List α)).Lawful := by
  intro xs h
  have hxs : xs.isEmpty = true := h
  rw [List.isEmpty_iff] at hxs
  rw [hxs]
  rfl

@[simp] theorem lawful_unlessNone {α : Type} : (unlessNone : Presence (Option α)).Lawful := by
  intro x h
  have hx : x.isNone = true := h
  rw [Option.isNone_iff_eq_none] at hx
  rw [hx]
  rfl

@[simp] theorem lawful_unlessBare {α : Type} : (unlessBare : Presence (Dict α)).Lawful := by
  intro d h
  have hd : d.entries.isEmpty = true := h
  rw [List.isEmpty_iff] at hd
  rw [show d = .empty from Dict.ext hd]
  rfl

end Json.Presence

/-! ### The shapes -/

/-- Inputs that a document carries: well formed, and not what stands for no inputs. -/
def Portable (inputs : Option Payload) : Prop := ∀ p ∈ inputs, p.WellFormed ∧ p.text ≠ "null"

namespace Json.Shape

@[simp] theorem valid_texts (xs : List String) : texts.Valid xs := by simp [texts, Valid]

@[simp] theorem valid_annotations (d : Annotations) : annotations.Valid d := by
  simp [annotations, Valid]

@[simp] theorem lawful_texts : texts.Lawful := by simp [texts, Lawful]

@[simp] theorem lawful_annotations : annotations.Lawful := by simp [annotations, Lawful]

end Json.Shape

namespace Host

@[simp] theorem valid_shape (h : Host) : shape.Valid h := by
  simp [shape, Shape.Valid, Fields.Valid]

@[simp] theorem lawful_shape : shape.Lawful := by
  unfold shape
  rw [Shape.Lawful]
  refine ⟨fun _ => rfl, fun _ => rfl, by decide, ?_⟩
  simp [Fields.Lawful, Shape.Lawful, Shape.Valid]

end Host

namespace ResourceRef

@[simp] theorem valid_shape (r : ResourceRef) : shape.Valid r := by
  simp [shape, Shape.Valid, Fields.Valid]

@[simp] theorem lawful_shape : shape.Lawful := by
  unfold shape
  rw [Shape.Lawful]
  refine ⟨fun _ => rfl, fun _ => rfl, by decide, ?_⟩
  simp [Fields.Lawful, Shape.Lawful, Shape.Valid]

end ResourceRef

namespace Step

@[simp] theorem valid_actionShape (a : Action) : actionShape.Valid a := by
  simp [actionShape, Shape.Valid]

@[simp] theorem lawful_actionShape : actionShape.Lawful := by
  unfold actionShape
  rw [Shape.Lawful]
  intro a
  cases a <;> decide

/-- A step is a valid value as soon as its inputs are portable. -/
theorem valid_shape_iff {s : Step} : shape.Valid s ↔ Portable s.inputs := by
  simp [shape, Shape.Valid, Fields.Valid, Portable, Shape.write, Document.SpellsNull]

@[simp] theorem lawful_shape : shape.Lawful := by
  unfold shape
  rw [Shape.Lawful]
  refine ⟨fun _ => rfl, fun _ => rfl, by decide, ?_⟩
  simp [Fields.Lawful, Shape.Lawful, Shape.Valid, Presence.inObject]

end Step

namespace HostStep

theorem valid_shape_iff {s : HostStep} : shape.Valid s ↔ Portable s.inputs := by
  simp [shape, Shape.Valid, Fields.Valid, Portable, Shape.write, Document.SpellsNull]

@[simp] theorem lawful_shape : shape.Lawful := by
  unfold shape
  rw [Shape.Lawful]
  refine ⟨fun _ => rfl, fun _ => rfl, by decide, ?_⟩
  simp [Fields.Lawful, Shape.Lawful, Shape.Valid, Presence.inObject]

end HostStep

namespace Plan

theorem valid_shape_iff {p : Plan} : shape.Valid p ↔ ∀ s ∈ p.steps, Portable s.inputs := by
  simp [shape, Shape.Valid, Fields.Valid, Step.valid_shape_iff]

theorem lawful_shape : shape.Lawful := by
  unfold shape
  rw [Shape.Lawful]
  refine ⟨fun _ => rfl, fun _ => rfl, by decide, ?_⟩
  simp [Fields.Lawful, Shape.Lawful, Shape.Valid, Presence.inObject]

end Plan

namespace HostPlan

theorem valid_shape_iff {p : HostPlan} : shape.Valid p ↔ ∀ s ∈ p.steps, Portable s.inputs := by
  simp [shape, Shape.Valid, Fields.Valid, HostStep.valid_shape_iff]

theorem lawful_shape : shape.Lawful := by
  unfold shape
  rw [Shape.Lawful]
  refine ⟨fun _ => rfl, fun _ => rfl, by decide, ?_⟩
  simp [Fields.Lawful, Shape.Lawful, Shape.Valid, Presence.inObject]

end HostPlan

/-! ### Whole documents -/

section

variable {α : Type} {shape : Shape α} {a : α}

/-- A written document is the value in lines and a line break. -/
theorem octets_pretty (d : Document) :
    Text.octets (d.pretty ++ "\n") = d.lay .lines 0 ++ [0x0a] := by
  rw [Text.octets_append, Document.pretty, Document.octets_prettyAt]
  rfl

theorem readEnd_eq_ok_iff {s : Octets} : readEnd s = .ok () ↔ skipSpace s = [] := by
  unfold readEnd
  cases skipSpace s <;> simp

/-- What is decoded is what is read, and nothing but space stands behind it. -/
theorem decodeStrict_eq_ok_iff {bytes : Octets} : decodeStrict shape bytes = .ok a ↔
    ∃ r, taken? (shape.read bytes) = some (a, r) ∧ skipSpace r = [] := by
  unfold decodeStrict
  cases shape.read bytes with
  | error f => simp
  | ok p =>
    dsimp only
    rw [taken?_ok]
    cases hend : readEnd p.rest with
    | error f =>
      have hne : skipSpace p.rest ≠ [] := fun h => by
        rw [readEnd_eq_ok_iff.mpr h] at hend
        cases hend
      simp [hne]
    | ok u => simp [readEnd_eq_ok_iff.mp hend]

/-- Decoding strictly refuses in words of its own, and takes what the shape reads. -/
theorem readAll_eq_ok_iff {bytes : Octets} :
    shape.readAll bytes = .ok a ↔ decodeStrict shape bytes = .ok a := by
  unfold Shape.readAll decodeStrict
  cases shape.read bytes with
  | error f => simp [bind, Except.bind]
  | ok p => cases hend : readEnd p.rest <;> simp [hend, bind, Except.bind, pure, Except.pure]

/-- **A valid value is decoded from its own document**, in either layout and with space behind. -/
theorem decodeStrict_lay (L : Layout) (hlawful : shape.Lawful) (hvalid : shape.Valid a)
    {space : Octets} (hspace : Blank space) :
    decodeStrict shape ((shape.write a).lay L 0 ++ space) = .ok a := by
  have hend : skipSpace space = [] := by
    have hskip := skipSpace_append hspace []
    rwa [List.append_nil] at hskip
  have hdelimited : Delimited space := by
    have hbehind := hspace.delimited (r := []) (by simp [Delimited])
    rwa [List.append_nil] at hbehind
  exact decodeStrict_eq_ok_iff.mpr
    ⟨space, (Shape.spelled L 0 shape hlawful a hvalid).taken [] space blank_nil hdelimited, hend⟩

theorem decodeStrict_pretty (hlawful : shape.Lawful) (hvalid : shape.Valid a) :
    decodeStrict shape (Text.octets ((shape.write a).pretty ++ "\n")) = .ok a := by
  rw [octets_pretty]
  exact decodeStrict_lay .lines hlawful hvalid (by simp [Blank, Ascii.isSpace])

/-- A valid value is decoded from its document without space. -/
theorem decodeStrict_compact (hlawful : shape.Lawful) (hvalid : shape.Valid a) :
    decodeStrict shape (Text.octets (shape.write a).compact) = .ok a := by
  rw [Document.octets_compact, ← List.append_nil (Document.lay _ _ _)]
  exact decodeStrict_lay .compact hlawful hvalid blank_nil

theorem readFrom_of_decodeStrict {bytes : Octets} (h : decodeStrict shape bytes = .ok a) :
    shape.ReadFrom bytes a := by
  unfold decodeStrict at h
  split at h
  · cases h
  · rename_i p hread
    split at h
    · cases h
    · cases h
      exact (shape.readsWithin bytes List.suffix_rfl p hread).2

theorem valid_of_decodeStrict (hlawful : shape.Lawful) {bytes : Octets}
    (h : decodeStrict shape bytes = .ok a) : shape.Valid a :=
  shape.valid_of_readFrom hlawful (readFrom_of_decodeStrict h)

end

theorem checkVersion_ok_iff {found : String} :
    checkVersion found = .ok () ↔ found = schemaVersion := by
  simp [checkVersion]

namespace Plan

variable {plan : Plan} {bytes : Octets}

theorem decode_eq_ok_iff : decode bytes = .ok plan ↔
    decodeStrict shape bytes = .ok plan ∧ plan.version = schemaVersion := by
  unfold decode
  constructor
  · intro h
    split at h
    · cases h
    · rename_i hread
      split at h
      · cases h
      · rename_i hversion
        cases h
        exact ⟨hread, checkVersion_ok_iff.mp hversion⟩
  · rintro ⟨hread, hversion⟩
    rw [hread]
    dsimp only
    rw [checkVersion_ok_iff.mpr hversion]

/-- **A plan of the current version with portable inputs is decoded from its own document.** -/
theorem decode_encode (hversion : plan.version = schemaVersion)
    (hinputs : ∀ s ∈ plan.steps, Portable s.inputs) : decode (Text.octets plan.encode) = .ok plan :=
  decode_eq_ok_iff.mpr
    ⟨decodeStrict_pretty lawful_shape (valid_shape_iff.mpr hinputs), hversion⟩

/-- What was decoded has portable inputs. -/
theorem portable_of_decode (h : decode bytes = .ok plan) : ∀ s ∈ plan.steps, Portable s.inputs :=
  valid_shape_iff.mp (valid_of_decodeStrict lawful_shape (decode_eq_ok_iff.mp h).1)

end Plan

namespace HostPlan

variable {plan : HostPlan} {bytes : Octets} {planId : String}

theorem decode_eq_ok_iff : decode bytes planId = .ok plan ↔
    decodeStrict shape bytes = .ok plan ∧ plan.version = schemaVersion := by
  unfold decode
  constructor
  · intro h
    split at h
    · cases h
    · rename_i hread
      split at h
      · cases h
      · rename_i hversion
        cases h
        exact ⟨hread, checkVersion_ok_iff.mp hversion⟩
  · rintro ⟨hread, hversion⟩
    rw [hread]
    dsimp only
    rw [checkVersion_ok_iff.mpr hversion]

/-- **A host plan of the current version with portable inputs is decoded from its document.** -/
theorem decode_encode (hversion : plan.version = schemaVersion)
    (hinputs : ∀ s ∈ plan.steps, Portable s.inputs) (planId : String) :
    decode (Text.octets plan.encode) planId = .ok plan :=
  decode_eq_ok_iff.mpr
    ⟨decodeStrict_pretty lawful_shape (valid_shape_iff.mpr hinputs), hversion⟩

/-- What was decoded has portable inputs. -/
theorem portable_of_decode (h : decode bytes planId = .ok plan) :
    ∀ s ∈ plan.steps, Portable s.inputs :=
  valid_shape_iff.mp (valid_of_decodeStrict lawful_shape (decode_eq_ok_iff.mp h).1)

end HostPlan

end FleetPlan
