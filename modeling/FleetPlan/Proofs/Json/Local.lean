/-
What stands behind a value does not change it.

Every shape reads locally: it looks at what it takes and at most at the first octet behind.
A container needs not even that one, for its closing bracket says that it is through, and
so a record is taken alike whatever stands behind it (`SealedAt`).
-/
import FleetPlan.Proofs.Json.Steps

namespace FleetPlan.Json

/-! ### Readers that look at nothing behind -/

/-- What is taken from an input does not depend on what stands behind. -/
def SealedAt {α : Type} (f : Octets → Option (α × Octets)) (s : Octets) : Prop :=
  ∀ a r, f s = some (a, r) → ∃ w, s = w ++ r ∧ ∀ r', f (w ++ r') = some (a, r')

namespace SealedAt

variable {α β : Type} {f : Octets → Option (α × Octets)} {s : Octets}

theorem localAt (h : SealedAt f s) : LocalAt f s := by
  intro a r hs
  obtain ⟨w, hw, hall⟩ := h a r hs
  exact ⟨w, hw, fun r' _ => hall r'⟩

theorem pure (a : α) : SealedAt (fun s => some (a, s)) s := by
  intro b r h
  obtain ⟨rfl, rfl⟩ := Prod.mk.inj (Option.some.inj h)
  exact ⟨[], rfl, fun _ => rfl⟩

theorem fail : SealedAt (fun _ => (none : Option (α × Octets))) s :=
  fun _ _ h => absurd h (by simp)

theorem ite {g : Octets → Option (α × Octets)} {p : Prop} [Decidable p] (hf : p → SealedAt f s)
    (hg : ¬p → SealedAt g s) : SealedAt (fun s => if p then f s else g s) s := by
  by_cases hp : p
  · simpa only [if_pos hp] using hf hp
  · simpa only [if_neg hp] using hg hp

theorem map (h : SealedAt f s) (g : α → β) :
    SealedAt (fun s => (f s).map fun e => (g e.1, e.2)) s := by
  intro b r hs
  obtain ⟨⟨a, _⟩, ha, hb⟩ := Option.map_eq_some_iff.mp hs
  obtain ⟨rfl, rfl⟩ := Prod.mk.inj hb
  obtain ⟨w, hw, hall⟩ := h a _ ha
  refine ⟨w, hw, fun r' => ?_⟩
  dsimp only
  rw [hall r']
  rfl

/-- The first octet set aside, if it is among what is taken. -/
theorem tail {c : UInt8} (hf : SealedAt f (c :: s))
    (hless : ∀ a r, f (c :: s) = some (a, r) → r.length < (c :: s).length) :
    SealedAt (fun t => f (c :: t)) s := by
  intro a r h
  obtain ⟨w, hw, hall⟩ := hf a r h
  cases w with
  | nil => exact absurd (hless a r h) (by rw [hw]; exact Nat.lt_irrefl _)
  | cons d w =>
    obtain ⟨rfl, rfl⟩ := List.cons.inj hw
    exact ⟨w, rfl, hall⟩

/-- What reads from the first octet behind the space on is sealed if it is from there on. -/
theorem skipSpace {g : UInt8 → Octets → Option (α × Octets)}
    (hf : ∀ t, f t = match Json.skipSpace t with
      | [] => none
      | c :: r => g c r)
    (hg : ∀ c r, Json.skipSpace s = c :: r → SealedAt (g c) r) : SealedAt f s := by
  intro a r h
  rw [hf] at h
  cases hs : Json.skipSpace s with
  | nil =>
    rw [hs] at h
    cases h
  | cons c t =>
    rw [hs] at h
    obtain ⟨w, rfl, hall⟩ := hg c t hs a r h
    obtain ⟨ws, hws, hsplit⟩ := exists_blank s
    refine ⟨ws ++ c :: w, by rw [hsplit, hs, List.append_assoc]; rfl, fun r' => ?_⟩
    rw [hf, List.append_assoc, List.cons_append,
      skipSpace_blank_cons hws (not_isSpace_of_skipSpace hs)]
    exact hall r'

/-- A local reader, and behind it a sealed one that takes something. -/
theorem bind {g : α → Octets → Option (β × Octets)} (hf : LocalAt f s)
    (hg : ∀ a r, f s = some (a, r) → SealedAt (g a) r)
    (hless : ∀ a r b r', g a r = some (b, r') → r'.length < r.length) :
    SealedAt (fun s => (f s).bind fun e => g e.1 e.2) s := by
  intro b r hs
  obtain ⟨⟨a, r₁⟩, ha, hb⟩ := Option.bind_eq_some_iff.mp hs
  have hlt := hless a r₁ b r hb
  obtain ⟨w₂, rfl, hall₂⟩ := hg a r₁ ha b r hb
  obtain ⟨w₁, rfl, hall₁⟩ := hf a (w₂ ++ r) ha
  refine ⟨w₁ ++ w₂, (List.append_assoc _ _ _).symm, fun r' => ?_⟩
  have hfollow : MayFollow (w₂ ++ r) (w₂ ++ r') := by
    cases w₂ with
    | nil => exact absurd hlt (Nat.lt_irrefl _)
    | cons c w => exact .inl rfl
  dsimp only
  rw [List.append_assoc, hall₁ (w₂ ++ r') hfollow]
  exact hall₂ r'

end SealedAt

/-! ### Steps of the loops -/

section

variable {α σ : Type} {first : Bool} {s : Octets}

theorem sealedAt_atNext {closer : UInt8} {close : Octets → Option (α × Octets)}
    {next : UInt8 → Octets → Option (α × Octets)} (hclose : ∀ r, SealedAt close r)
    (hnext : ∀ c t, t.length < s.length → SealedAt (next c) t) :
    SealedAt (atNext closer first close next) s := by
  refine .skipSpace (fun _ => rfl) fun c r hs => ?_
  have hr := length_lt_of_skipSpace hs
  refine .ite (fun _ => hclose r) fun _ => .ite (fun _ => hnext c r hr) fun _ =>
    .ite (fun _ => ?_) fun _ => .fail
  refine .skipSpace (fun _ => rfl) fun d t ht => ?_
  exact hnext d t (Nat.lt_trans (length_lt_of_skipSpace ht) hr)

theorem sealedAt_atItem {close item : Octets → Option (α × Octets)}
    (hclose : ∀ r, SealedAt close r) (hitem : ∀ t, t.length ≤ s.length → SealedAt item t)
    (hless : ∀ t a r, item t = some (a, r) → r.length < t.length) :
    SealedAt (atItem first close item) s :=
  sealedAt_atNext hclose fun c t ht =>
    .ite (fun _ => .fail) fun _ => (hitem (c :: t) ht).tail (hless (c :: t))

theorem sealedAt_atName {close name : Octets → Option (α × Octets)}
    (hclose : ∀ r, SealedAt close r) (hname : ∀ t, t.length < s.length → SealedAt name t) :
    SealedAt (atName first close name) s :=
  sealedAt_atNext hclose fun _ t ht => .ite (fun _ => hname t ht) fun _ => .fail

theorem local_readText : Local fun s => taken? (readText s) := by
  intro s a r h
  obtain ⟨w, rfl, hw⟩ := exists_spells h
  exact ⟨w, rfl, fun r' _ => hw.read r'⟩

theorem sealed_closeList (s : Octets) : SealedAt (fun s => taken? (closeList s)) s :=
  .skipSpace taken?_closeList_eq fun _ _ _ => .ite (fun _ => .pure ()) fun _ => .fail

theorem sealed_closeObject (s : Octets) : SealedAt (fun s => taken? (closeObject s)) s :=
  .skipSpace taken?_closeObject_eq fun _ _ _ => .ite (fun _ => .pure ()) fun _ => .fail

theorem local_readMember {value : Reader α} (h : Local fun s => taken? (value s)) :
    Local fun s => taken? (readMember value s) := fun _ =>
  Scan.localAt_skipSpace (taken?_readMember_eq value) fun _ r _ => .ite (fun _ => h r) fun _ => .fail

/-- **Items that are read locally are read alike whatever stands behind the list.** -/
theorem sealed_listItems {item : Reader α} (hitem : Local fun s => taken? (item s)) :
    (first : Bool) → (s : Octets) → SealedAt (fun s => taken? (listItems item first s)) s
  | first, s => by
    have heq : (fun s => taken? (listItems item first s)) =
        atItem first (fun r => some ([], r)) fun t => (taken? (item t)).bind fun e =>
          (taken? (listItems item false e.2)).map fun f => (e.1 :: f.1, f.2) :=
      funext (taken?_listItems_eq item first)
    rw [heq]
    have hless {a : α} {t r' : Octets} {xs : List α}
        (h : ((taken? (listItems item false t)).map fun f => (a :: f.1, f.2)) = some (xs, r')) :
        r'.length < t.length := by
      obtain ⟨⟨ys, r⟩, hread, heq⟩ := Option.map_eq_some_iff.mp h
      obtain ⟨-, rfl⟩ := Prod.mk.inj heq
      exact (taken?_eq_some_iff.mp hread).1
    refine sealedAt_atItem (fun r => .pure []) (fun t ht => ?_) fun t xs r h => ?_
    · refine .bind (g := fun a t => (taken? (listItems item false t)).map fun f => (a :: f.1, f.2))
        (hitem t) (fun a r ha => ?_) fun _ _ _ _ => hless
      have hr : r.length < t.length := (taken?_eq_some_iff.mp ha).1
      exact (sealed_listItems hitem false r).map _
    · obtain ⟨⟨a, t'⟩, ha, hrest⟩ := Option.bind_eq_some_iff.mp h
      exact Nat.lt_trans (hless hrest) (taken?_eq_some_iff.mp ha).1
termination_by _ s => s.length

/-- **Members that are read locally are read alike whatever stands behind the object.** -/
theorem sealed_foldMembers {member : σ → String → Reader σ}
    (hmember : ∀ g key, Local fun s => taken? (member g key s)) : (first : Bool) → (g : σ) →
      (s : Octets) → SealedAt (fun s => taken? (foldMembers member first g s)) s
  | first, g, s => by
    have heq : (fun s => taken? (foldMembers member first g s)) =
        atName first (fun r => some (g, r)) fun t => (taken? (readText t)).bind fun e =>
          (taken? (member g e.1 e.2)).bind fun f => taken? (foldMembers member false f.1 f.2) :=
      funext (taken?_foldMembers_eq member first g)
    rw [heq]
    refine sealedAt_atName (fun r => .pure g) fun t ht => ?_
    refine .bind (g := fun key t => (taken? (member g key t)).bind fun f =>
      taken? (foldMembers member false f.1 f.2)) (local_readText t) (fun key r hkey => ?_)
        fun key r g' r' h => ?_
    · have hr : r.length < t.length := (taken?_eq_some_iff.mp hkey).1
      refine .bind (g := fun g t => taken? (foldMembers member false g t)) (hmember g key r)
        (fun g' r' hg' => ?_) fun _ _ _ _ h => (taken?_eq_some_iff.mp h).1
      have hr' : r'.length < r.length := (taken?_eq_some_iff.mp hg').1
      exact sealed_foldMembers hmember false g' r'
    · obtain ⟨⟨g₁, r₁⟩, hg₁, hrest⟩ := Option.bind_eq_some_iff.mp h
      exact Nat.lt_trans (taken?_eq_some_iff.mp hrest).1 (taken?_eq_some_iff.mp hg₁).1
termination_by _ _ s => s.length

end

/-! ### Scalars -/

theorem local_readNumber : Local fun s => taken? (readNumber s) := by
  intro s
  have heq : (fun s => taken? (readNumber s)) = fun s =>
      (taken? (Numeral.read .endsInValue s)).bind fun e =>
        e.1.number.toOption.map fun n => (n, e.2) := funext taken?_readNumber_eq
  rw [heq]
  refine .bind (g := fun x t => x.number.toOption.map fun n => (n, t)) (Numeral.local_read s) ?_
  intro x r _
  cases x.number.toOption with
  | none => exact .fail
  | some n => exact .pure n

theorem local_readPayload : Local fun s => taken? (readPayload s) := by
  intro s p r h
  have hwell := Payload.wellFormed_of_read h
  obtain ⟨hs, hskip⟩ := taken?_readPayload_iff.mp h
  obtain ⟨c, t, htext, hc, -⟩ := hwell.head
  obtain ⟨w, hw, hall⟩ := local_skipValue _ _ _ hskip
  obtain rfl := List.append_cancel_right (hs.symm.trans hw)
  obtain ⟨ws, hws, hsplit⟩ := exists_blank s
  refine ⟨ws ++ Text.octets p.text, by rw [hsplit, hs, List.append_assoc], fun r' hr' => ?_⟩
  have hstart : skipSpace (ws ++ Text.octets p.text ++ r') = Text.octets p.text ++ r' := by
    rw [htext, List.append_assoc, List.cons_append]
    exact skipSpace_blank_cons hws hc _
  refine taken?_readPayload_iff.mpr ⟨hstart, ?_⟩
  rw [hstart]
  exact hall r' hr'

theorem local_readUnit : Local fun s => taken? (readUnit s) := fun _ =>
  Scan.localAt_skipSpace taken?_readUnit fun _ r _ =>
    .ite (fun _ => local_dropWord _ r) fun _ => .fail

theorem local_readString : Local fun s => taken? (readString s) := fun _ =>
  Scan.localAt_skipSpace taken?_readString fun _ r _ =>
    .ite (fun _ => local_readText r) fun _ => .fail

theorem local_readFlag : Local fun s => taken? (readFlag s) := fun _ =>
  Scan.localAt_skipSpace taken?_readFlag fun _ r _ =>
    .ite (fun _ => (local_dropWord _ r).map fun _ => true) fun _ =>
      .ite (fun _ => (local_dropWord _ r).map fun _ => false) fun _ => .fail

theorem local_readInteger (range : IntRange) : Local fun s => taken? (readInteger range s) := by
  refine fun _ => Scan.localAt_skipSpace (taken?_readInteger range) fun c r _ =>
    .ite (fun _ => ?_) fun _ => .fail
  have hnumber := (local_readNumber (c :: r)).bind
    (g := fun n t => (n.within? range).map fun i => (i, t)) fun n t _ => by
      cases n.within? range with
      | none => exact .fail
      | some i => exact .pure i
  refine hnumber.tail fun i t h => ?_
  obtain ⟨⟨n, t'⟩, hread, hrange⟩ := Option.bind_eq_some_iff.mp h
  obtain ⟨i', -, heq⟩ := Option.map_eq_some_iff.mp hrange
  obtain ⟨-, rfl⟩ := Prod.mk.inj heq
  exact (taken?_eq_some_iff.mp hread).1

theorem local_readChoice {α : Type} (options : List α) (name : α → String) :
    Local fun s => taken? (readChoice options name s) := by
  refine fun _ => Scan.localAt_skipSpace (taken?_readChoice options name) fun c r _ =>
    .ite (fun _ => ?_) fun _ => .ite (fun _ => ?_) fun _ => .fail
  · refine (local_readText r).bind
      (g := fun key t => (chosen options name key).toOption.map fun a => (a, t)) ?_
    intro key t _
    cases (chosen options name key).toOption with
    | none => exact .fail
    | some a => exact .pure a
  · refine Scan.localAt_skipSpace (fun _ => rfl) fun d r' _ => .ite (fun _ => ?_) fun _ => .fail
    refine (local_readText r').bind (g := fun key t => (chosen options name key).toOption.bind
      fun a => (taken? (readMember readUnit t)).bind fun f =>
        (taken? (closeObject f.2)).map fun g => (a, g.2)) ?_
    intro key t _
    cases (chosen options name key).toOption with
    | none => exact .fail
    | some a =>
      refine (local_readMember local_readUnit t).bind
        (g := fun _ t => (taken? (closeObject t)).map fun g => (a, g.2)) fun _ t' _ => ?_
      exact ((sealed_closeObject t').map fun _ => a).localAt

/-! ### Values -/

/-- A record is through behind its closing bracket. -/
theorem sealed_record {α β π : Type} {name : String} {closed : Bool} {fields : Fields β π}
    {make : β → α} {parts : α → β}
    (hmember : ∀ slots key, Local fun s => taken? (fields.member closed slots key s))
    (hlisted : ∀ s, SealedAt (fields.listed? name fields.names.length 0) s) (s : Octets) :
    SealedAt (fun s => taken? ((Shape.record name closed fields make parts).read s)) s := by
  refine .skipSpace (Shape.taken?_read_record name closed fields make parts) fun c r _ => ?_
  refine .ite (fun _ => ?_) fun _ => .ite (fun _ => (hlisted r).map make) fun _ => .fail
  intro a r' h
  obtain ⟨⟨slots, r₁⟩, hfold, hcomplete⟩ := Option.bind_eq_some_iff.mp h
  obtain ⟨b, hb, heq⟩ := Option.map_eq_some_iff.mp hcomplete
  obtain ⟨rfl, rfl⟩ := Prod.mk.inj heq
  obtain ⟨w, hw, hall⟩ := sealed_foldMembers hmember true fields.blank r slots r₁ hfold
  refine ⟨w, hw, fun r'' => ?_⟩
  dsimp only at hall ⊢
  rw [hall r'', Option.bind_some]
  dsimp only at hb ⊢
  rw [hb]
  rfl

mutual

/-- **A shape reads a value alike in front of everything that ends it.** -/
theorem Shape.local_read : {α : Type} → (shape : Shape α) → Local fun s => taken? (shape.read s)
  | _, .text => by
    simp only [Shape.read]
    exact local_readString
  | _, .integer range => by
    simp only [Shape.read]
    exact local_readInteger range
  | _, .flag => by
    simp only [Shape.read]
    exact local_readFlag
  | _, .payload => by
    simp only [Shape.read]
    exact local_readPayload
  | _, .choice options name => by
    simp only [Shape.read]
    exact local_readChoice options name
  | _, .list item => fun s =>
    Scan.localAt_skipSpace item.taken?_read_list fun c r _ =>
      .ite (fun _ => (sealed_listItems item.local_read true r).localAt) fun _ => .fail
  | _, .dict item => fun s =>
    Scan.localAt_skipSpace item.taken?_read_dict fun c r _ => by
      refine .ite (fun _ => (sealed_foldMembers (fun d key => ?_) true _ r).localAt)
        fun _ => .fail
      simp only [taken?_map_map]
      exact fun s => (local_readMember item.local_read s).map (Dict.insert key · d)
  | _, .nullable inner => fun s =>
    Scan.localAt_skipSpace inner.taken?_read_nullable fun c r _ => by
      refine .ite (fun _ => (local_dropWord _ r).map fun _ => none) fun _ => ?_
      exact ((inner.local_read (c :: r)).tail fun a r' h => (taken?_eq_some_iff.mp h).1).map some
  | _, .record name closed fields make parts => fun s =>
    (sealed_record (fun slots key => fields.local_member closed slots key)
      (fun s => fields.sealed_listed? name fields.names.length 0 s) s).localAt

theorem Fields.local_member : {β π : Type} → (fields : Fields β π) → (closed : Bool) →
    (slots : π) → (key : String) → Local fun s => taken? (fields.member closed slots key s)
  | _, _, fields, closed, slots, key => fun s => by
    simp only [Fields.taken?_member]
    refine .ite (fun _ => fields.local_assigned? slots key s) fun _ => .ite (fun _ => .fail) fun _ => ?_
    exact (local_readMember local_skipValue s).map fun _ => slots

theorem Fields.local_assigned? : {β π : Type} → (fields : Fields β π) → (slots : π) →
    (key : String) → Local (fields.assigned? slots key)
  | _, _, .done, _, _ => fun _ => .fail
  | _, _, .field name presence shape rest, (slot, slots), key => fun s => by
    have heq : (Fields.field name presence shape rest).assigned? (slot, slots) key = _ :=
      funext (Fields.assigned?_field name presence shape rest slot slots key)
    rw [heq]
    exact .ite (fun _ => .ite (fun _ => .fail)
      fun _ => (local_readMember shape.local_read s).map fun a => (some a, slots))
      fun _ => (rest.local_assigned? slots key s).map fun slots => (slot, slots)

theorem Fields.sealed_listed? : {β π : Type} → (fields : Fields β π) → (record : String) →
    (total before : Nat) → (s : Octets) → SealedAt (fields.listed? record total before) s
  | _, _, .done, record, total, before, s => by
    have heq : Fields.done.listed? record total before = _ :=
      funext (Fields.listed?_done record total before)
    rw [heq]
    exact (sealed_closeList s).map fun _ => ()
  | _, _, .field name presence shape rest, record, total, before, s => by
    have heq : (Fields.field name presence shape rest).listed? record total before = _ :=
      funext (Fields.listed?_field name presence shape rest record total before)
    rw [heq]
    refine sealedAt_atItem (fun r => ?_) (fun t _ => ?_) fun t ab r' h => ?_
    · cases (Fields.field name presence shape rest).short? with
      | none => exact .fail
      | some b => exact .pure b
    · refine .bind (g := fun a t => (rest.listed? record total (before + 1) t).map fun f =>
        ((a, f.1), f.2)) (shape.local_read t)
        (fun a r _ => (rest.sealed_listed? record total (before + 1) r).map fun b => (a, b)) ?_
      intro a r b r' h
      obtain ⟨⟨b', r₁⟩, hlisted, heq⟩ := Option.map_eq_some_iff.mp h
      obtain ⟨-, rfl⟩ := Prod.mk.inj heq
      exact rest.length_lt_of_listed? hlisted
    · obtain ⟨⟨a, r₁⟩, ha, hrest⟩ := Option.bind_eq_some_iff.mp h
      obtain ⟨⟨b', r₂⟩, hlisted, heq⟩ := Option.map_eq_some_iff.mp hrest
      obtain ⟨-, rfl⟩ := Prod.mk.inj heq
      exact Nat.lt_trans (rest.length_lt_of_listed? hlisted) (taken?_eq_some_iff.mp ha).1

end

theorem Shape.sealed_read_record {α β π : Type} (name : String) (closed : Bool)
    (fields : Fields β π) (make : β → α) (parts : α → β) (s : Octets) :
    SealedAt (fun s => taken? ((Shape.record name closed fields make parts).read s)) s :=
  sealed_record (fields.local_member closed) (fields.sealed_listed? name fields.names.length 0) s

end FleetPlan.Json
