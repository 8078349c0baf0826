/-
One field of a record, read by itself.

An open record of a single field passes over all members but its own.  What a record takes
the scanner passes over to the same point, so both records go through an object side by side,
and after each member the slot of the field is the same in both (`Fields.At.member_alone`).
Of a list the single field would be the first item, and nothing may stand behind that.
-/
import FleetPlan.Proofs.Json.Fits

namespace FleetPlan.Json

/-- Two loops over members go side by side when their steps do. -/
theorem foldMembers_map {σ τ : Type} {member : σ → String → Reader σ}
    {member' : τ → String → Reader τ} {f : σ → τ}
    (hstep : ∀ g key s g' r, taken? (member g key s) = some (g', r) →
      taken? (member' (f g) key s) = some (f g', r)) :
    (first : Bool) → {g : σ} → {s : Octets} → {g' : σ} → {r : Octets} →
      taken? (foldMembers member first g s) = some (g', r) →
        taken? (foldMembers member' first (f g) s) = some (f g', r)
  | first, g, s, g', r, h => by
    rw [taken?_foldMembers_eq] at h ⊢
    obtain ⟨fault, -, hat⟩ | ⟨r', -, -, hat⟩ | ⟨t, hle, -, hat⟩ := nextName_cases first s
    · rw [hat] at h
      cases h
    · rw [hat] at h ⊢
      obtain ⟨rfl, rfl⟩ := Prod.mk.inj (Option.some.inj h)
      rfl
    · rw [hat] at h ⊢
      obtain ⟨⟨key, t₁⟩, hkey, h⟩ := Option.bind_eq_some_iff.mp h
      obtain ⟨⟨g₁, t₂⟩, hg₁, hrest⟩ := Option.bind_eq_some_iff.mp h
      have hlt₁ : t₁.length < t.length := (taken?_eq_some_iff.mp hkey).1
      have hlt₂ : t₂.length < t₁.length := (taken?_eq_some_iff.mp hg₁).1
      rw [hkey, Option.bind_some, hstep g key t₁ g₁ t₂ hg₁, Option.bind_some]
      exact foldMembers_map hstep false hrest
termination_by _ _ s => s.length

theorem taken?_readMember_skipValue {α : Type} {f : Octets → Option (α × Octets)}
    (h : SkipsMember f) {s r : Octets} {a : α} (hread : f s = some (a, r)) :
    taken? (readMember skipValue s) = some ((), r) := by
  obtain ⟨t, hcolon, hvalue⟩ := h s a r hread
  rw [taken?_readMember_of_colon hcolon]
  exact hvalue

namespace Fields

/-! ### Side by side -/

/-- Where among fields one stands: which of the slots is its own, and which of the values. -/
inductive At {α : Type} (name : String) (presence : Presence α) (shape : Shape α) :
    {β π : Type} → Fields β π → (π → Option α) → (β → α) → Prop
  | here {β π : Type} (rest : Fields β π) :
    At name presence shape (.field name presence shape rest) Prod.fst Prod.fst
  | there {γ β π : Type} {other : String} {presence' : Presence γ} {shape' : Shape γ}
      {rest : Fields β π} {slot : π → Option α} {value : β → α} (hother : other ≠ name)
      (h : At name presence shape rest slot value) :
    At name presence shape (.field other presence' shape' rest) (slot ∘ Prod.snd)
      (value ∘ Prod.snd)

namespace At

variable {α β π : Type} {name : String} {presence : Presence α} {shape : Shape α}
  {fields : Fields β π} {slot : π → Option α} {value : β → α}

theorem slot_blank (h : At name presence shape fields slot value) : slot fields.blank = none := by
  induction h with
  | here rest => rfl
  | there hother h ih => exact ih

theorem mem_names (h : At name presence shape fields slot value) : name ∈ fields.names := by
  induction h with
  | here rest => exact List.mem_cons_self
  | there hother h ih => exact List.mem_cons_of_mem _ ih

/-- A member changes the slot just when it has the name of the field. -/
theorem of_assigned? (h : At name presence shape fields slot value) {slots slots' : π}
    {key : String} {s r : Octets} (hread : fields.assigned? slots key s = some (slots', r)) :
    (key = name ∧ slot slots = none ∧
      ∃ a, taken? (readMember shape.read s) = some (a, r) ∧ slot slots' = some a) ∨
      key ≠ name ∧ slot slots' = slot slots := by
  induction h with
  | here rest =>
    rw [assigned?_field] at hread
    split at hread
    · rename_i hkey
      split at hread
      · cases hread
      · rename_i hnone
        obtain ⟨⟨a, r'⟩, ha, heq⟩ := Option.map_eq_some_iff.mp hread
        obtain ⟨rfl, rfl⟩ := Prod.mk.inj heq
        exact .inl ⟨hkey, by simpa using hnone, a, ha, rfl⟩
    · rename_i hkey
      obtain ⟨⟨slots₁, r'⟩, -, heq⟩ := Option.map_eq_some_iff.mp hread
      obtain ⟨rfl, -⟩ := Prod.mk.inj heq
      exact .inr ⟨hkey, rfl⟩
  | there hother h ih =>
    rw [assigned?_field] at hread
    split at hread
    · rename_i hkey
      split at hread
      · cases hread
      · obtain ⟨⟨a, r'⟩, -, heq⟩ := Option.map_eq_some_iff.mp hread
        obtain ⟨rfl, -⟩ := Prod.mk.inj heq
        exact .inr ⟨fun hname => hother (hkey.symm.trans hname), rfl⟩
    · obtain ⟨⟨slots₁, r'⟩, hrest, heq⟩ := Option.map_eq_some_iff.mp hread
      obtain ⟨rfl, rfl⟩ := Prod.mk.inj heq
      exact ih hrest

/-- In a complete record the slot holds the value, unless the field was left out. -/
theorem slot_of_complete (h : At name presence shape fields slot value) {slots : π} {b : β}
    (hcomplete : fields.complete slots = .ok b) :
    (slot slots).or presence.inObject = some (value b) := by
  induction h with
  | here rest => exact (complete_field_eq_ok_iff.mp hcomplete).1
  | there hother h ih => exact ih (complete_field_eq_ok_iff.mp hcomplete).2

/-- After each member the slot is that of the field by itself. -/
theorem member_alone (h : At name presence shape fields slot value) (presence' : Presence α)
    {closed : Bool} {slots slots' : π} {key : String} {s r : Octets}
    (hread : taken? (fields.member closed slots key s) = some (slots', r)) :
    taken? ((field name presence' shape done).member false (slot slots, ()) key s) =
      some ((slot slots', ()), r) := by
  have hskip : taken? (readMember skipValue s) = some ((), r) :=
    taken?_readMember_skipValue (skipsMember_member (fields.skips_assigned? slots key) closed) hread
  have hmem : key ∈ (field name presence' shape done).names ↔ key = name := List.mem_singleton
  rw [taken?_member] at hread
  simp only [taken?_member, hmem]
  split at hread
  · obtain ⟨hkey, hnone, a, ha, hslot⟩ | ⟨hkey, hslot⟩ := h.of_assigned? hread
    · rw [if_pos hkey, assigned?_field, if_pos hkey, hnone, ha, hslot]
      rfl
    · rw [if_neg hkey, hslot]
      simp [hskip]
  · rename_i hkey
    have hname : key ≠ name := fun heq => hkey (heq ▸ h.mem_names)
    split at hread
    · cases hread
    · obtain ⟨e, -, heq⟩ := Option.map_eq_some_iff.mp hread
      obtain ⟨rfl, -⟩ := Prod.mk.inj heq
      rw [if_neg hname]
      simp [hskip]

end At

/-! ### In a list -/

/-- In front of an item for which nothing can stand there is no closing bracket. -/
theorem taken?_closeList_of_listed? {fields : Fields β π} (hshort : fields.short? = none)
    {record : String} {total before : Nat} {s : Octets} {e : β × Octets}
    (h : fields.listed? record total before s = some e) : taken? (closeList s) = none := by
  rw [taken?_closeList_eq]
  cases hs : skipSpace s with
  | nil => rfl
  | cons c r =>
    refine if_neg ?_
    rintro rfl
    rw [listed?, taken?_inOrder_of_close hs, hshort] at h
    cases h

/-- **One field takes no list of which a record takes a field more.** -/
theorem listed?_alone {α γ : Type} {name name' : String} {presence : Presence α}
    {presence' : Presence γ} {shape : Shape α} {shape' : Shape γ} {rest : Fields β π}
    (hshort : rest.short? = none) {record record' : String} {total total' : Nat} {s : Octets}
    {e : (α × β) × Octets}
    (h : (field name presence shape rest).listed? record total 0 s = some e) :
    (field name' presence' shape' done).listed? record' total' 0 s = none := by
  rw [listed?_field] at h ⊢
  obtain ⟨fault, -, hat⟩ | ⟨r, -, -, hat⟩ | ⟨t, ht, -, hat⟩ := nextItem_cases true s
  · exact hat _ _ _
  · -- The list is empty, which the record does not take.
    have hnone : (field name presence shape rest).short? = none := by simp [short?, hshort]
    rw [beq_self_eq_true, hat, hnone] at h
    cases h
  · rw [beq_self_eq_true, hat] at h ⊢
    obtain ⟨⟨a, r⟩, ha, h⟩ := Option.bind_eq_some_iff.mp h
    obtain ⟨f, hf, -⟩ := Option.map_eq_some_iff.mp h
    rw [Option.bind_eq_none_iff]
    rintro ⟨a', r'⟩ ha'
    -- Both take the first item as far as the scanner does.
    have hr : r' = r := by
      have hscan := (shape.skips t a r ha).symm.trans (shape'.skips t a' r' ha')
      exact (Prod.mk.inj (Option.some.inj hscan)).2.symm
    rw [listed?_done, hr, taken?_closeList_of_listed? hshort hf]
    rfl

end Fields

/-! ### Records -/

namespace Shape

variable {α α' β γ π : Type}

/-- A record is read of an object or of a list. -/
theorem opened_of_read {label : String} {closed : Bool} {fields : Fields β π} {make : β → α}
    {parts : α → β} {s : Octets} {e : α × Octets}
    (hread : taken? ((record label closed fields make parts).read s) = some e) :
    ∃ t, skipSpace s = Ascii.openBrace :: t ∨ skipSpace s = Ascii.openBracket :: t := by
  rw [taken?_read_record] at hread
  cases hs : skipSpace s with
  | nil =>
    rw [hs] at hread
    cases hread
  | cons c t =>
    rw [hs] at hread
    dsimp only at hread
    split at hread
    · rename_i hc
      exact ⟨t, .inl (by rw [hc])⟩
    · split at hread
      · rename_i hc
        exact ⟨t, .inr (by rw [hc])⟩
      · cases hread

/-- **Of an object a record and one of its fields by itself read the same value.** -/
theorem read_alone {label label' name : String} {closed : Bool} {presence presence' : Presence γ}
    {shape : Shape γ} {fields : Fields β π} {make : β → α} {parts : α → β}
    {make' : γ × Unit → α'} {parts' : α' → γ × Unit} {slot : π → Option γ} {value : β → γ}
    (hat : Fields.At name presence shape fields slot value) (hrequired : presence.inObject = none)
    {s t r : Octets} {a : α} (hs : skipSpace s = Ascii.openBrace :: t)
    (hread : taken? ((record label closed fields make parts).read s) = some (a, r)) :
    ∃ b, a = make b ∧
      taken? ((record label' false (.field name presence' shape .done) make' parts').read s) =
        some (make' (value b, ()), r) := by
  rw [taken?_read_record, hs] at hread
  dsimp only at hread
  rw [if_pos rfl] at hread
  obtain ⟨⟨slots, r'⟩, hfold, hmade⟩ := Option.bind_eq_some_iff.mp hread
  obtain ⟨b, hb, heq⟩ := Option.map_eq_some_iff.mp hmade
  obtain ⟨rfl, rfl⟩ := Prod.mk.inj heq
  have hslot := hat.slot_of_complete (toOption_eq_some_iff.mp hb)
  rw [hrequired, Option.or_none] at hslot
  have halone := foldMembers_map (f := fun slots => (slot slots, ()))
    (fun _ _ _ _ _ h => hat.member_alone presence' h) true hfold
  rw [hat.slot_blank] at halone
  refine ⟨b, rfl, ?_⟩
  rw [taken?_read_record, hs]
  dsimp only
  rw [if_pos rfl, Fields.blank, Fields.blank, halone, Option.bind_some, hslot]
  rfl

/-- Of a list that a record takes a single field takes nothing. -/
theorem read_alone_list {δ : Type} {label label' name name' : String} {closed : Bool}
    {presence : Presence γ} {presence' : Presence δ} {shape : Shape γ} {shape' : Shape δ}
    {rest : Fields β π} {make : γ × β → α} {parts : α → γ × β}
    {make' : δ × Unit → α'} {parts' : α' → δ × Unit}
    (hshort : rest.short? = none) {s t r : Octets} {a : α}
    (hs : skipSpace s = Ascii.openBracket :: t)
    (hread : taken? ((record label closed (.field name presence shape rest) make parts).read s) =
      some (a, r)) :
    taken? ((record label' false (.field name' presence' shape' .done) make' parts').read s) =
      none := by
  rw [taken?_read_record, hs] at hread ⊢
  dsimp only at hread ⊢
  rw [if_neg (by decide), if_pos rfl] at hread ⊢
  obtain ⟨e, he, -⟩ := Option.map_eq_some_iff.mp hread
  rw [Fields.listed?_alone hshort he]
  rfl

end Shape

end FleetPlan.Json
