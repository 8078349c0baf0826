/-
What may stand around a plan.

A plan is a record, and a record is taken alike whatever stands behind it.  So of what is
put behind an accepted document only space is overlooked: anything else is told as trailing
content, before the version is looked at, and none of it becomes part of the plan.  Space
in front is skipped in any case.
-/
import FleetPlan.Proofs.Codec
import FleetPlan.Proofs.Json.Local
import Mathlib.Data.List.TakeWhile

namespace FleetPlan

open Json

theorem blank_iff {s : Octets} : Blank s ↔ skipSpace s = [] := by
  rw [Blank, skipSpace, List.dropWhile_eq_nil_iff]

section

variable {α : Type} {shape : Shape α} {a : α} {before bytes : Octets}

/-- What is put around an accepted document decides only whether the document is all there is. -/
theorem decodeStrict_surrounded (hsealed : ∀ s, SealedAt (fun s => taken? (shape.read s)) s)
    (h : decodeStrict shape bytes = .ok a) (hbefore : Blank before) (after : Octets) :
    decodeStrict shape (before ++ bytes ++ after) =
      if skipSpace after = [] then .ok a else .error .trailingContent := by
  obtain ⟨r, hread, hr⟩ := decodeStrict_eq_ok_iff.mp h
  obtain ⟨w, hw, hall⟩ := hsealed bytes a r hread
  have hwhole : taken? (shape.read (before ++ bytes ++ after)) = some (a, r ++ after) := by
    rw [hw, List.append_assoc, List.append_assoc, ← shape.taken?_read_skipSpace,
      skipSpace_append hbefore, shape.taken?_read_skipSpace]
    exact hall (r ++ after)
  have hskip : skipSpace (r ++ after) = skipSpace after :=
    skipSpace_append (blank_iff.mpr hr) after
  split
  · rename_i hafter
    exact decodeStrict_eq_ok_iff.mpr ⟨r ++ after, hwhole, hskip.trans hafter⟩
  · rename_i hafter
    obtain ⟨hlt, hwhole⟩ := taken?_eq_some_iff.mp hwhole
    unfold decodeStrict readEnd
    rw [hwhole]
    dsimp only
    rw [hskip, if_neg (by simpa using hafter)]

/-- Reading says nothing about the version. -/
theorem decodeStrict_ne_versionMismatch (found : String) :
    decodeStrict shape bytes ≠ .error (.versionMismatch found) := by
  unfold decodeStrict DecodeCause.ofFault
  split
  · split <;> simp
  · split <;> simp

/-- A document of the schema was found: at most its version is not the current one. -/
def Structural (result : Except DecodeError α) : Prop :=
  (∃ a, result = .ok a) ∨ ∃ e found, result = .error e ∧ e.cause = .versionMismatch found

/-- What is decoded by what is read, and refused when nothing is. -/
structure DecodesBy (shape : Shape α) (target planId : String)
    (decode : Octets → Except DecodeError α) : Prop where
  refused : ∀ {bytes cause}, decodeStrict shape bytes = .error cause →
    decode bytes = .error ⟨target, planId, cause⟩
  read : ∀ {bytes bytes' a}, decodeStrict shape bytes = .ok a → decodeStrict shape bytes' = .ok a →
    decode bytes = decode bytes'

theorem DecodesBy.surrounded {target planId : String} {decode : Octets → Except DecodeError α}
    (h : DecodesBy shape target planId decode)
    (hsealed : ∀ s, SealedAt (fun s => taken? (shape.read s)) s)
    (hbytes : Structural (decode bytes)) (hbefore : Blank before) (after : Octets) :
    decode (before ++ bytes ++ after) =
      if skipSpace after = [] then decode bytes
      else .error ⟨target, planId, .trailingContent⟩ := by
  cases hread : decodeStrict shape bytes with
  | error cause =>
    rw [h.refused hread] at hbytes
    obtain ⟨a, h⟩ | ⟨e, found, h, hcause⟩ := hbytes
    · cases h
    · cases h
      exact absurd (hread.trans (congrArg _ hcause)) (decodeStrict_ne_versionMismatch found)
  | ok a =>
    have hwhole := decodeStrict_surrounded hsealed hread hbefore after
    split at hwhole
    · rename_i hafter
      rw [if_pos hafter]
      exact h.read hwhole hread
    · rename_i hafter
      rw [if_neg hafter]
      exact h.refused hwhole

end

theorem Plan.decodesBy : DecodesBy shape "plan" "" decode where
  refused h := by unfold decode; rw [h]
  read h h' := by unfold decode; rw [h, h']

theorem HostPlan.decodesBy (planId : String) :
    DecodesBy shape "host plan" planId (decode · planId) where
  refused h := by unfold decode; rw [h]
  read h h' := by unfold decode; rw [h, h']

theorem Plan.sealed_shape (s : Octets) : SealedAt (fun s => taken? (shape.read s)) s :=
  Shape.sealed_read_record _ _ _ _ _ s

theorem HostPlan.sealed_shape (s : Octets) : SealedAt (fun s => taken? (shape.read s)) s :=
  Shape.sealed_read_record _ _ _ _ _ s

/--
**Nothing but space may stand around a plan, and space does not matter there.**  Take a
document in which a plan or a host plan is found, of whatever version.  With space in front
and space behind the answer is the same.  With anything else behind, text or not, the answer
is that there is trailing content.
-/
theorem decode_trailing (bytes : Octets) {before : Octets} (hbefore : Blank before)
    (after : Octets) :
    (Structural (Plan.decode bytes) →
      (Blank after → Plan.decode (before ++ bytes ++ after) = Plan.decode bytes) ∧
      (¬Blank after →
        Plan.decode (before ++ bytes ++ after) = .error ⟨"plan", "", .trailingContent⟩)) ∧
    ∀ planId, Structural (HostPlan.decode bytes planId) →
      (Blank after → HostPlan.decode (before ++ bytes ++ after) planId =
        HostPlan.decode bytes planId) ∧
      (¬Blank after → HostPlan.decode (before ++ bytes ++ after) planId =
        .error ⟨"host plan", planId, .trailingContent⟩) := by
  rw [blank_iff (s := after)]
  constructor
  · intro hbytes
    have hplan := Plan.decodesBy.surrounded Plan.sealed_shape hbytes hbefore after
    exact ⟨fun h => hplan.trans (if_pos h), fun h => hplan.trans (if_neg h)⟩
  · intro planId hbytes
    have hplan := (HostPlan.decodesBy planId).surrounded HostPlan.sealed_shape hbytes hbefore after
    exact ⟨fun h => hplan.trans (if_pos h), fun h => hplan.trans (if_neg h)⟩

/-- A plan without steps, between a blank and a line break or an octet that is no text. -/
theorem decode_trailing_of_bare :
    Blank [0x20] ∧ Structural (Plan.decode (Text.octets (Plan.bare "p").encode)) ∧
      Plan.decode ([0x20] ++ Text.octets (Plan.bare "p").encode ++ [0x0a]) =
        .ok (Plan.bare "p") ∧
      Plan.decode ([0x20] ++ Text.octets (Plan.bare "p").encode ++ [0x0a, 0xff]) =
        .error ⟨"plan", "", .trailingContent⟩ := by
  have hblank : Blank [0x20] := by simp [Blank, Ascii.isSpace]
  have hdecode : Plan.decode (Text.octets (Plan.bare "p").encode) = .ok (Plan.bare "p") :=
    Plan.decode_encode rfl fun s hs => absurd hs List.not_mem_nil
  have hplan : Structural (Plan.decode (Text.octets (Plan.bare "p").encode)) := .inl ⟨_, hdecode⟩
  refine ⟨hblank, hplan, ?_, ?_⟩
  · refine (((decode_trailing _ hblank [0x0a]).1 hplan).1 ?_).trans hdecode
    simp [Blank, Ascii.isSpace]
  · refine ((decode_trailing _ hblank [0x0a, 0xff]).1 hplan).2 ?_
    simp [Blank, Ascii.isSpace]

end FleetPlan
