/-
Where in a document an object stands.

A `Tree.Context` is a tree with a hole, and an object stands in a document wherever the
document is a context filled with it.  `Shape.locate` follows the context down the shape and
says what the shape has at the hole, with the names of the fields on the way, which a list
has by their order.  So what fits a shape can be told object by object: each stands where
the shape has a record, a choice or something it does not look into, and is named
accordingly (`Shape.exists_locate`).
-/
import FleetPlan.Proofs.Json.Fits

namespace FleetPlan.Json

/-- A tree with a hole. -/
inductive Tree.Context where
  | hole
  | item (before : List Tree) (inner : Context) (after : List Tree)
  | member (before : List (NameToken × Tree)) (name : NameToken) (inner : Context)
      (after : List (NameToken × Tree))

/-- The tree with the hole filled. -/
def Tree.Context.fill : Context → Tree → Tree
  | hole, x => x
  | item before inner after, x => list (before ++ inner.fill x :: after)
  | member before name inner after, x => object (before ++ (name, inner.fill x) :: after)

open Json.Tree (Context)

/-- What a shape has where an object stands. -/
inductive Spot where
  /-- A record with these fields, of which some are demanded. -/
  | record (closed : Bool) (names demanded : List String)
  /-- One of these names. -/
  | choice (options : List String)
  /-- Names of any kind. -/
  | free
  deriving DecidableEq

/-- The members are named as they have to be. -/
def Spot.Allows : Spot → List (NameToken × Tree) → Prop
  | record closed names demanded, ms =>
    (∀ m ∈ ms, m.1.text?.isSome) ∧ (closed = true → ∀ key ∈ Tree.keys ms, key ∈ names) ∧
      (∀ key ∈ names, (Tree.keys ms).count key ≤ 1) ∧ ∀ key ∈ demanded, key ∈ Tree.keys ms
  | choice options, ms => ∃ name x, ms = [(name, x)] ∧ (∃ key ∈ options, name.text? = some key) ∧
      x.scalar? Value.asNull? = some ()
  | free, _ => True

/-- What is found in a field. -/
def inField (name : String) : Option (List String × Spot) → Option (List String × Spot) :=
  Option.map fun e => (name :: e.1, e.2)

mutual

/-- What the shape has at the hole, and the fields on the way there. -/
def Shape.locate : {α : Type} → Shape α → Context → Option (List String × Spot)
  | _, .text, _ => none
  | _, .integer _, _ => none
  | _, .flag, _ => none
  | _, .payload, _ => some ([], .free)
  | _, .choice options name, c =>
    match c with
    | .hole => some ([], .choice (options.map name))
    | .item _ _ _ | .member _ _ _ _ => none
  | _, .list item, c =>
    match c with
    | .item _ c _ => item.locate c
    | .hole | .member _ _ _ _ => none
  | _, .dict _, _ => some ([], .free)
  | _, .nullable inner, c => inner.locate c
  | _, .record _ closed fields _ _, c =>
    match c with
    | .hole => some ([], .record closed fields.names fields.demanded)
    | .member _ name c _ => name.text?.bind fun key => fields.locateMember closed key c
    | .item before c _ => fields.locateItem before.length c

/-- What is at the hole in the member of that name; an open record may have others. -/
def Fields.locateMember : {β π : Type} → Fields β π → (closed : Bool) → String → Context →
    Option (List String × Spot)
  | _, _, .done, closed, _, _ => if closed then none else some ([], .free)
  | _, _, .field name _ shape rest, closed, key, c =>
    if key = name then inField name (shape.locate c) else rest.locateMember closed key c

/-- What is at the hole in the field that so many are in front of. -/
def Fields.locateItem : {β π : Type} → Fields β π → Nat → Context → Option (List String × Spot)
  | _, _, .done, _, _ => none
  | _, _, .field name _ shape rest, n, c =>
    match n with
    | 0 => inField name (shape.locate c)
    | n + 1 => rest.locateItem n c

end

mutual

/-- All that `locate` can find. -/
def Shape.spots : {α : Type} → Shape α → List (List String × Spot)
  | _, .text => []
  | _, .integer _ => []
  | _, .flag => []
  | _, .payload => [([], .free)]
  | _, .choice options name => [([], .choice (options.map name))]
  | _, .list item => item.spots
  | _, .dict _ => [([], .free)]
  | _, .nullable inner => inner.spots
  | _, .record _ closed fields _ _ =>
    ([], .record closed fields.names fields.demanded) ::
      (fields.spots ++ if closed then [] else [([], .free)])

def Fields.spots : {β π : Type} → Fields β π → List (List String × Spot)
  | _, _, .done => []
  | _, _, .field name _ shape rest =>
    shape.spots.map (fun e => (name :: e.1, e.2)) ++ rest.spots

end

/-! ### What is found -/

theorem mem_map_of_inField {name : String} {e : List String × Spot}
    {found : Option (List String × Spot)} {spots : List (List String × Spot)}
    (h : inField name found = some e) (hfound : ∀ e, found = some e → e ∈ spots) :
    e ∈ spots.map fun e => (name :: e.1, e.2) := by
  obtain ⟨e', he', rfl⟩ := Option.map_eq_some_iff.mp h
  exact List.mem_map_of_mem (hfound e' he')

mutual

theorem Shape.mem_spots_of_locate : {α : Type} → (shape : Shape α) → (c : Context) →
    {e : List String × Spot} → shape.locate c = some e → e ∈ shape.spots
  | _, .text, c, e, h => by
    rw [Shape.locate] at h
    cases h
  | _, .integer _, c, e, h => by
    rw [Shape.locate] at h
    cases h
  | _, .flag, c, e, h => by
    rw [Shape.locate] at h
    cases h
  | _, .payload, c, e, h => by
    rw [Shape.locate] at h
    rw [Shape.spots, ← Option.some.inj h]
    exact List.mem_singleton_self _
  | _, .choice options name, c, e, h => by
    cases c <;> rw [Shape.locate] at h
    · rw [Shape.spots, ← Option.some.inj h]
      exact List.mem_singleton_self _
    · cases h
    · cases h
  | _, .list item, c, e, h => by
    rw [Shape.spots]
    cases c <;> rw [Shape.locate] at h
    · cases h
    · exact item.mem_spots_of_locate _ h
    · cases h
  | _, .dict _, c, e, h => by
    rw [Shape.locate] at h
    rw [Shape.spots, ← Option.some.inj h]
    exact List.mem_singleton_self _
  | _, .nullable inner, c, e, h => by
    rw [Shape.locate] at h
    rw [Shape.spots]
    exact inner.mem_spots_of_locate c h
  | _, .record _ closed fields _ _, c, e, h => by
    rw [Shape.spots]
    cases c <;> rw [Shape.locate] at h
    · rw [← Option.some.inj h]
      exact List.mem_cons_self
    · exact List.mem_cons_of_mem _ (List.mem_append_left _ (fields.mem_spots_of_locateItem h))
    · obtain ⟨key, -, h⟩ := Option.bind_eq_some_iff.mp h
      refine List.mem_cons_of_mem _ (List.mem_append.mpr ?_)
      exact fields.mem_spots_of_locateMember h

theorem Fields.mem_spots_of_locateMember : {β π : Type} → (fields : Fields β π) →
    {closed : Bool} → {key : String} → {c : Context} → {e : List String × Spot} →
      fields.locateMember closed key c = some e →
        e ∈ fields.spots ∨ e ∈ if closed then [] else [([], Spot.free)]
  | _, _, .done, closed, key, c, e, h => by
    rw [Fields.locateMember] at h
    split at h
    · cases h
    · rename_i hclosed
      rw [if_neg hclosed, ← Option.some.inj h]
      exact .inr (List.mem_singleton_self _)
  | _, _, .field name _ shape rest, closed, key, c, e, h => by
    rw [Fields.locateMember] at h
    rw [Fields.spots, List.mem_append]
    split at h
    · exact .inl (.inl (mem_map_of_inField h fun _ => shape.mem_spots_of_locate c))
    · exact (rest.mem_spots_of_locateMember h).imp_left .inr

theorem Fields.mem_spots_of_locateItem : {β π : Type} → (fields : Fields β π) → {n : Nat} →
    {c : Context} → {e : List String × Spot} → fields.locateItem n c = some e → e ∈ fields.spots
  | _, _, .done, n, c, e, h => by
    rw [Fields.locateItem] at h
    cases h
  | _, _, .field name _ shape rest, n, c, e, h => by
    rw [Fields.spots, List.mem_append]
    cases n <;> rw [Fields.locateItem] at h
    · exact .inl (mem_map_of_inField h fun _ => shape.mem_spots_of_locate c)
    · exact .inr (rest.mem_spots_of_locateItem h)

end

/-! ### The objects of what fits -/

/-- Where an object stands is no scalar. -/
theorem scalar?_fill_object {α : Type} (kind : Value → Option α) (c : Context)
    (ms : List (NameToken × Tree)) : (c.fill (.object ms)).scalar? kind = none := by
  cases c <;> rfl

/-- Each object of what fits is named as the shape has it where the object stands. -/
def Shape.Locates {α : Type} (shape : Shape α) : Prop :=
  ∀ (c : Context) {ms : List (NameToken × Tree)}, shape.Fits (c.fill (.object ms)) →
    ∃ e, shape.locate c = some e ∧ e.2.Allows ms

/-- So is each object in a member of the fields. -/
def Fields.LocatesMembers {β π : Type} (fields : Fields β π) : Prop :=
  ∀ (c : Context) {closed : Bool} {key : String} {ms : List (NameToken × Tree)},
    (closed = true → key ∈ fields.names) → fields.FitsMember key (c.fill (.object ms)) →
      ∃ e, fields.locateMember closed key c = some e ∧ e.2.Allows ms

/-- So is each object in an item that stands for a field. -/
def Fields.LocatesItems {β π : Type} (fields : Fields β π) : Prop :=
  ∀ (before : List Tree) (c : Context) {after : List Tree} {ms : List (NameToken × Tree)},
    fields.FitsItems (before ++ c.fill (.object ms) :: after) →
      ∃ e, fields.locateItem before.length c = some e ∧ e.2.Allows ms

theorem exists_inField {name : String} {found : Option (List String × Spot)}
    {ms : List (NameToken × Tree)} (h : ∃ e, found = some e ∧ e.2.Allows ms) :
    ∃ e, inField name found = some e ∧ e.2.Allows ms := by
  obtain ⟨e, rfl, hallows⟩ := h
  exact ⟨(name :: e.1, e.2), rfl, hallows⟩

namespace Shape

variable {α β π : Type}

/-- In a scalar stands no object. -/
theorem locates_of_scalar {γ : Type} {shape : Shape α} {kind : Value → Option γ}
    (h : ∀ x, shape.Fits x → (x.scalar? kind).isSome = true) : shape.Locates := by
  intro c ms hfits
  have hscalar := h _ hfits
  rw [scalar?_fill_object] at hscalar
  cases hscalar

theorem locates_choice {options : List α} {name : α → String} : (choice options name).Locates := by
  intro c ms h
  rw [Fits, Tree.Chooses, scalar?_fill_object] at h
  obtain ⟨key, -, h⟩ | ⟨n, y, h, hname, hnull⟩ := h
  · cases h
  cases c with
  | hole =>
    obtain rfl := Tree.object.inj h
    rw [locate]
    exact ⟨_, rfl, n, y, rfl, hname, hnull⟩
  | item before c after => cases h
  | member before name' c after =>
    -- The only member is null, and in it stands no object.
    have hmem : (name', c.fill (.object ms)) ∈ [(n, y)] := by
      rw [← Tree.object.inj h]
      simp
    rw [← (Prod.mk.inj (List.mem_singleton.mp hmem)).2, scalar?_fill_object] at hnull
    cases hnull

theorem locates_list {item : Shape α} (h : item.Locates) : item.list.Locates := by
  intro c ms hfits
  cases c with
  | hole => exact absurd hfits not_fits_list_object
  | item before c after =>
    rw [locate]
    exact h c (fits_list_iff.mp hfits _ (by simp))
  | member before name c after => exact absurd hfits not_fits_list_object

theorem locates_nullable {inner : Shape α} (h : inner.Locates) : inner.nullable.Locates := by
  intro c ms hfits
  rw [Fits, scalar?_fill_object, or_iff_right (by simp)] at hfits
  rw [locate]
  exact h c hfits

/-- The members of a record are named as it has them. -/
theorem allows_of_takes {closed : Bool} {fields : Fields β π} {ms : List (NameToken × Tree)}
    (htakes : fields.Takes closed (fun _ => False) ms)
    (hdemanded : ∀ name ∈ fields.demanded, name ∈ Tree.keys ms) :
    (Spot.record closed fields.names fields.demanded).Allows ms := by
  refine ⟨htakes.texts, htakes.known, fun key hkey => ?_, hdemanded⟩
  rw [← List.count_filter (p := (· ∈ fields.names)) (by simpa using hkey)]
  exact List.nodup_iff_count_le_one.mp htakes.once key

theorem locates_record {name : String} {closed : Bool} {fields : Fields β π} {make : β → α}
    {parts : α → β} (hmembers : fields.LocatesMembers) (hitems : fields.LocatesItems) :
    (record name closed fields make parts).Locates := by
  intro c ms hfits
  cases c with
  | hole =>
    obtain ⟨htakes, -, hdemanded⟩ := fits_record_object_iff.mp hfits
    rw [locate]
    exact ⟨_, rfl, allows_of_takes htakes hdemanded⟩
  | item before c after =>
    rw [locate]
    exact hitems before c (fits_record_list_iff.mp hfits)
  | member before token c after =>
    obtain ⟨htakes, hall, -⟩ := fits_record_object_iff.mp hfits
    have hmem : (token, c.fill (.object ms)) ∈ before ++ (token, c.fill (.object ms)) :: after := by
      simp
    obtain ⟨key, hkey⟩ := Option.isSome_iff_exists.mp (htakes.texts _ hmem)
    have hknown (h : closed = true) : key ∈ fields.names :=
      htakes.known h key (List.mem_filterMap.mpr ⟨_, hmem, hkey⟩)
    dsimp only at hkey
    rw [locate, hkey, Option.bind_some]
    exact hmembers c hknown (hall _ hmem key hkey)

end Shape

mutual

/-- **Each object of what fits is named as the shape has it where the object stands.** -/
theorem Shape.exists_locate : {α : Type} → (shape : Shape α) → shape.Locates
  | _, .text => Shape.locates_of_scalar fun _ h => by rwa [Shape.Fits] at h
  | _, .integer _ => Shape.locates_of_scalar fun _ h => by rwa [Shape.Fits] at h
  | _, .flag => Shape.locates_of_scalar fun _ h => by rwa [Shape.Fits] at h
  | _, .payload => by
    intro c ms _
    rw [Shape.locate]
    exact ⟨_, rfl, trivial⟩
  | _, .choice _ _ => Shape.locates_choice
  | _, .list item => Shape.locates_list item.exists_locate
  | _, .dict _ => by
    intro c ms _
    rw [Shape.locate]
    exact ⟨_, rfl, trivial⟩
  | _, .nullable inner => Shape.locates_nullable inner.exists_locate
  | _, .record _ _ fields _ _ =>
    Shape.locates_record fields.exists_locateMember fields.exists_locateItem

theorem Fields.exists_locateMember : {β π : Type} → (fields : Fields β π) → fields.LocatesMembers
  | _, _, .done => by
    intro c closed key ms hknown _
    rw [Fields.locateMember, if_neg fun h => nomatch hknown h]
    exact ⟨_, rfl, trivial⟩
  | _, _, .field name _ shape rest => by
    intro c closed key ms hknown h
    rw [Fields.FitsMember] at h
    rw [Fields.locateMember]
    split at h
    · rename_i hname
      rw [if_pos hname]
      exact exists_inField (shape.exists_locate c h)
    · rename_i hname
      rw [if_neg hname]
      refine rest.exists_locateMember c (fun hclosed => ?_) h
      have hmem := hknown hclosed
      rw [Fields.names, List.mem_cons, or_iff_right hname] at hmem
      exact hmem

theorem Fields.exists_locateItem : {β π : Type} → (fields : Fields β π) → fields.LocatesItems
  | _, _, .done => by
    intro before c after ms h
    rw [Fields.FitsItems] at h
    exact absurd h (by simp)
  | _, _, .field name _ shape rest => by
    intro before c after ms h
    cases before with
    | nil =>
      rw [List.nil_append, Fields.FitsItems] at h
      rw [List.length_nil, Fields.locateItem]
      exact exists_inField (shape.exists_locate c h.1)
    | cons y before =>
      rw [List.cons_append, Fields.FitsItems] at h
      rw [List.length_cons, Fields.locateItem]
      exact rest.exists_locateItem before c h.2

end

end FleetPlan.Json
