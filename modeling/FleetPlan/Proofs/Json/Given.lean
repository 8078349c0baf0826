/-
What a record is given as.

A record is an object with its names or a list in its order (`Spot.Forms`), and nothing else
may stand in its place unless it may be null.  `Shape.solid` says that no record of a shape
may be.  Whatever then stands in a document where the shape has a record is of one of the two
forms (`Shape.forms_of_locate`).
-/
import FleetPlan.Proofs.Json.Places

namespace FleetPlan.Json

open Json.Tree (Context)

/-! ### The two forms of a record -/

def Spot.isRecord : Spot → Bool
  | record _ _ _ => true
  | choice _ | free => false

/-- A list of the fields in their order, of which those at the end may be left out. -/
def Spot.Orders : Spot → List Tree → Prop
  | record _ names demanded, xs =>
    xs.length ≤ names.length ∧ ∀ name ∈ demanded, name ∈ names.take xs.length
  | choice _, _ | free, _ => False

/-- The tree is an object that is named as it has to be, or a list of the fields. -/
def Spot.Forms (spot : Spot) (x : Tree) : Prop :=
  (∃ ms, x = .object ms ∧ spot.Allows ms) ∨ ∃ xs, x = .list xs ∧ spot.Orders xs

mutual

/-- No record may be null. -/
def Shape.solid : {α : Type} → Shape α → Bool
  | _, .text | _, .integer _ | _, .flag | _, .payload | _, .choice _ _ | _, .dict _ => true
  | _, .list item => item.solid
  | _, .nullable inner => inner.spots.all fun e => !e.2.isRecord
  | _, .record _ _ fields _ _ => fields.solid

def Fields.solid : {β π : Type} → Fields β π → Bool
  | _, _, .done => true
  | _, _, .field _ _ shape rest => shape.solid && rest.solid

end

/-! ### The fields in their order -/

theorem Presence.inList_of_inObject {α : Type} {presence : Presence α}
    (h : presence.inObject.isNone) : presence.inList.isSome = false := by
  cases presence <;> simp_all [inObject, inList]

theorem Fields.length_le_of_fitsItems : {β π : Type} → (fields : Fields β π) → {xs : List Tree} →
    fields.FitsItems xs → xs.length ≤ fields.names.length
  | _, _, .done, xs, h => by
    rw [FitsItems] at h
    simp [h]
  | _, _, .field _ _ _ rest, [], _ => by simp
  | _, _, .field _ _ _ rest, x :: xs, h => by
    rw [FitsItems] at h
    rw [names, List.length_cons, List.length_cons]
    exact Nat.succ_le_succ (rest.length_le_of_fitsItems h.2)

/-- What an object has to have a list cannot leave out. -/
theorem Fields.mem_take_of_fitsItems : {β π : Type} → (fields : Fields β π) → {xs : List Tree} →
    fields.FitsItems xs → ∀ name ∈ fields.demanded, name ∈ fields.names.take xs.length
  | _, _, .done, _, _ => List.forall_mem_nil _
  | _, _, .field name presence _ rest, [], h => by
    rw [FitsItems] at h
    have hrest := rest.mem_take_of_fitsItems h.2
    rw [demanded]
    split
    · rename_i hnone
      rw [Presence.inList_of_inObject hnone] at h
      exact absurd h.1 Bool.false_ne_true
    · simpa using hrest
  | _, _, .field name presence _ rest, x :: xs, h => by
    rw [FitsItems] at h
    have hrest := rest.mem_take_of_fitsItems h.2
    intro key hkey
    rw [names, List.length_cons, List.take_succ_cons, List.mem_cons]
    rw [demanded] at hkey
    split at hkey
    · exact (List.mem_cons.mp hkey).imp_right (hrest key)
    · exact .inr (hrest key hkey)

theorem Fields.orders {β π : Type} (fields : Fields β π) (closed : Bool) {xs : List Tree}
    (h : fields.FitsItems xs) : (Spot.record closed fields.names fields.demanded).Orders xs :=
  ⟨fields.length_le_of_fitsItems h, fields.mem_take_of_fitsItems h⟩

/-! ### Where a record stands -/

theorem exists_of_inField {name : String} {e : List String × Spot}
    {found : Option (List String × Spot)} (h : inField name found = some e) :
    ∃ e', found = some e' ∧ e'.2 = e.2 := by
  obtain ⟨e', he', rfl⟩ := Option.map_eq_some_iff.mp h
  exact ⟨e', he', rfl⟩

/-- Where the shape has a record, what fits has an object of its names or a list of its fields. -/
def Shape.Gives {α : Type} (shape : Shape α) : Prop :=
  ∀ (c : Context) {x : Tree} {e : List String × Spot}, shape.Fits (c.fill x) →
    shape.locate c = some e → e.2.isRecord = true → e.2.Forms x

/-- So it is in a member of the fields. -/
def Fields.GivesMembers {β π : Type} (fields : Fields β π) : Prop :=
  ∀ (c : Context) {closed : Bool} {key : String} {x : Tree} {e : List String × Spot},
    fields.FitsMember key (c.fill x) → fields.locateMember closed key c = some e →
      e.2.isRecord = true → e.2.Forms x

/-- So it is in an item that stands for a field. -/
def Fields.GivesItems {β π : Type} (fields : Fields β π) : Prop :=
  ∀ (before : List Tree) (c : Context) {after : List Tree} {x : Tree} {e : List String × Spot},
    fields.FitsItems (before ++ c.fill x :: after) →
      fields.locateItem before.length c = some e → e.2.isRecord = true → e.2.Forms x

namespace Shape

variable {α β π : Type}

/-- Where no record is there is nothing to show. -/
theorem gives_of_locate {shape : Shape α} (h : ∀ c, ∀ e ∈ shape.locate c, e.2.isRecord = false) :
    shape.Gives := by
  intro c x e _ hlocate hrecord
  rw [h c e hlocate] at hrecord
  cases hrecord

theorem gives_list {item : Shape α} (h : item.Gives) : item.list.Gives := by
  intro c x e hfits hlocate hrecord
  cases c with
  | hole =>
    rw [locate] at hlocate
    cases hlocate
  | item before c after =>
    rw [locate] at hlocate
    exact h c (fits_list_iff.mp hfits _ (by simp)) hlocate hrecord
  | member before name c after => exact absurd hfits not_fits_list_object

section

variable {name : String} {closed : Bool} {fields : Fields β π} {make : β → α} {parts : α → β}

/-- What stands where the record itself is. -/
theorem forms_of_fits {x : Tree} (h : (record name closed fields make parts).Fits x) :
    (Spot.record closed fields.names fields.demanded).Forms x := by
  rw [Fits] at h
  obtain ⟨ms, rfl, htakes, -, hdemanded⟩ | ⟨xs, rfl, h⟩ := h
  · exact .inl ⟨ms, rfl, allows_of_takes htakes hdemanded⟩
  · exact .inr ⟨xs, rfl, fields.orders closed h⟩

theorem gives_record (hmembers : fields.GivesMembers) (hitems : fields.GivesItems) :
    (record name closed fields make parts).Gives := by
  intro c x e hfits hlocate hrecord
  cases c with
  | hole =>
    rw [locate] at hlocate
    obtain rfl := Option.some.inj hlocate
    exact forms_of_fits hfits
  | item before c after =>
    rw [locate] at hlocate
    exact hitems before c (fits_record_list_iff.mp hfits) hlocate hrecord
  | member before token c after =>
    obtain ⟨-, hall, -⟩ := fits_record_object_iff.mp hfits
    rw [locate] at hlocate
    obtain ⟨key, hkey, hlocate⟩ := Option.bind_eq_some_iff.mp hlocate
    exact hmembers c (hall (token, c.fill x) (by simp) key hkey) hlocate hrecord

end

end Shape

mutual

/-- **Where a shape has a record, what fits has an object of its names or a list of its
fields.** -/
theorem Shape.forms_of_locate : {α : Type} → (shape : Shape α) → shape.solid = true → shape.Gives
  | _, .text, _ => Shape.gives_of_locate fun c e he => by
    rw [Shape.locate] at he
    cases he
  | _, .integer _, _ => Shape.gives_of_locate fun c e he => by
    rw [Shape.locate] at he
    cases he
  | _, .flag, _ => Shape.gives_of_locate fun c e he => by
    rw [Shape.locate] at he
    cases he
  | _, .payload, _ => Shape.gives_of_locate fun c e he => by
    rw [Shape.locate] at he
    cases he
    rfl
  | _, .choice _ _, _ => Shape.gives_of_locate fun c e he => by
    cases c <;> rw [Shape.locate] at he <;> cases he
    rfl
  | _, .dict _, _ => Shape.gives_of_locate fun c e he => by
    rw [Shape.locate] at he
    cases he
    rfl
  | _, .nullable inner, hsolid => Shape.gives_of_locate fun c e he => by
    rw [Shape.locate] at he
    rw [Shape.solid, List.all_eq_true] at hsolid
    simpa using hsolid e (inner.mem_spots_of_locate c he)
  | _, .list item, hsolid => by
    rw [Shape.solid] at hsolid
    exact Shape.gives_list (item.forms_of_locate hsolid)
  | _, .record _ _ fields _ _, hsolid => by
    rw [Shape.solid] at hsolid
    exact Shape.gives_record (fields.forms_of_locateMember hsolid)
      (fields.forms_of_locateItem hsolid)

theorem Fields.forms_of_locateMember : {β π : Type} → (fields : Fields β π) →
    fields.solid = true → fields.GivesMembers
  | _, _, .done, _ => by
    intro c closed key x e _ hlocate hrecord
    rw [Fields.locateMember] at hlocate
    split at hlocate
    · cases hlocate
    · cases hlocate
      cases hrecord
  | _, _, .field name _ shape rest, hsolid => by
    intro c closed key x e h hlocate hrecord
    rw [Fields.solid, Bool.and_eq_true] at hsolid
    rw [Fields.FitsMember] at h
    rw [Fields.locateMember] at hlocate
    split at h
    · rename_i hname
      rw [if_pos hname] at hlocate
      obtain ⟨e', he', hspot⟩ := exists_of_inField hlocate
      rw [← hspot] at hrecord ⊢
      exact shape.forms_of_locate hsolid.1 c h he' hrecord
    · rename_i hname
      rw [if_neg hname] at hlocate
      exact rest.forms_of_locateMember hsolid.2 c h hlocate hrecord

theorem Fields.forms_of_locateItem : {β π : Type} → (fields : Fields β π) →
    fields.solid = true → fields.GivesItems
  | _, _, .done, _ => by
    intro before c after x e h
    rw [Fields.FitsItems] at h
    exact absurd h (by simp)
  | _, _, .field name _ shape rest, hsolid => by
    intro before c after x e h hlocate hrecord
    rw [Fields.solid, Bool.and_eq_true] at hsolid
    cases before with
    | nil =>
      rw [List.nil_append, Fields.FitsItems] at h
      rw [List.length_nil, Fields.locateItem] at hlocate
      obtain ⟨e', he', hspot⟩ := exists_of_inField hlocate
      rw [← hspot] at hrecord ⊢
      exact shape.forms_of_locate hsolid.1 c h.1 he' hrecord
    | cons y before =>
      rw [List.cons_append, Fields.FitsItems] at h
      rw [List.length_cons, Fields.locateItem] at hlocate
      exact rest.forms_of_locateItem hsolid.2 before c h.2 hlocate hrecord

end

end FleetPlan.Json
