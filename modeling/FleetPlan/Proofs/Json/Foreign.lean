/-
Members that a closed record does not have.

A reader goes through a document from left to right and is done with the first fault.  Put a
foreign member into an object of what fits, where a closed record stands: whatever is in
front is read as before, and the name is the first that does not fit.  So the fault names
that member, however deep it stands and whatever comes after its name (`Shape.read_foreign`).
-/
import FleetPlan.Proofs.Json.Places

namespace FleetPlan.Json

open Json.Tree (Context)

/-- The reader has that fault at a tree, however it is laid out. -/
def Refuses {α : Type} (read : Reader α) (x : Tree) (f : Fault) : Prop :=
  ∀ s r, Spaced x.tokens s r → Delimited r → read s = .error f

section

variable {α σ : Type} {x : Tree} {s t r : Octets} {f : Fault}

/-! ### Loops -/

theorem readMember_error {value : Reader α} (hs : skipSpace s = Ascii.colon :: t)
    (h : value t = .error f) : readMember value s = .error f := by
  obtain ⟨ht, hcolon⟩ := readColon_of_colon hs
  unfold readMember
  rw [hcolon]
  dsimp only
  rw [h]
  rfl

/-- A fault in an item is a fault in the list, once the items in front were taken. -/
theorem listItems_refuses {item : Reader α} {P : Tree → Prop}
    (hskips : Skips fun s => taken? (item s)) (hitem : Judges (fun s => taken? (item s)) P)
    (h : Refuses item x f) {after : List Tree} :
    (before : List Tree) → (∀ y ∈ before, P y) → (first : Bool) → {s r : Octets} →
      Spaced (Tree.itemTokens first (before ++ x :: after)) s r →
        listItems item first s = .error f
  | [], _, first, s, r, hs => by
    rw [List.nil_append] at hs
    obtain ⟨t, ht, m, hnext, hx, hxs, hm⟩ := exists_item hs
    rw [listItems, hnext]
    dsimp only
    rw [h t m hx hm]
  | y :: before, hbefore, first, s, r, hs => by
    rw [List.cons_append] at hs
    obtain ⟨t, ht, m, hnext, hy, hys, hm⟩ := exists_item hs
    obtain ⟨hfirst, hbefore⟩ := List.forall_mem_cons.mp hbefore
    obtain ⟨a, ha⟩ := (hitem y t m hy hm).mpr hfirst
    obtain ⟨hlt, ha⟩ := taken?_eq_some_iff.mp ha
    rw [listItems, hnext]
    dsimp only
    rw [ha]
    dsimp only
    rw [listItems_refuses hskips hitem h before hbefore false hys]
    rfl

end

namespace Fields

variable {β π : Type} {fields : Fields β π} {closed : Bool} {f : Fault}

/-- A fault in a member is a fault in the object, once the members in front were taken.  What is
known where the member stands is that the others may go on from there. -/
theorem Assigns.foldMembers_refuses (hassigns : fields.Assigns) {name : NameToken} {x : Tree}
    {key : String} (hkey : name.text? = some key) (others : List (NameToken × Tree))
    {after : List (NameToken × Tree)}
    (h : ∀ slots t m, fields.Takes closed (fields.Holds slots) others →
      Spaced ([Ascii.colon] :: x.tokens) t m → Delimited m →
        fields.member closed slots key t = .error f) :
    (before : List (NameToken × Tree)) → (first : Bool) → (slots : π) → {s r : Octets} →
      fields.Takes closed (fields.Holds slots) (before ++ others) →
        (∀ m ∈ before, ∀ key ∈ m.1.text?, fields.FitsMember key m.2) →
          Spaced (Tree.memberTokens first (before ++ (name, x) :: after)) s r →
            foldMembers (fields.member closed) first slots s = .error f
  | [], first, slots, s, r, htakes, _, hs => by
    rw [List.nil_append] at hs
    obtain ⟨t, ht, m, hnext, hx, -, hm⟩ := exists_member hs hkey
    rw [foldMembers, hnext]
    dsimp only
    rw [h slots t m htakes hx hm]
  | (name', y) :: before, first, slots, s, r, htakes, hfits, hs => by
    rw [List.cons_append] at htakes hs
    obtain ⟨key', hkey'⟩ := Option.isSome_iff_exists.mp (htakes.texts _ List.mem_cons_self)
    obtain ⟨hmay, htakes⟩ := (takes_cons_iff hkey').mp htakes
    obtain ⟨hfirst, hfits⟩ := List.forall_mem_cons.mp hfits
    obtain ⟨t, ht, m, hnext, hy, hms, hm⟩ := exists_member hs hkey'
    obtain ⟨slots', hslots'⟩ :=
      (hassigns.member closed slots key' y t m hy hm).mpr ⟨hmay, hfirst key' hkey'⟩
    obtain ⟨hlt, hread⟩ := taken?_eq_some_iff.mp hslots'
    rw [foldMembers, hnext]
    dsimp only
    rw [hread]
    dsimp only
    rw [hassigns.foldMembers_refuses hkey others h before false slots'
      ((Takes.congr (holds_member hslots')).mpr htakes) hfits hms]
    rfl

end Fields

/-! ### Shapes -/

/-- One member more among those of an object. -/
structure Insertion where
  before : List (NameToken × Tree)
  name : NameToken
  value : Tree
  after : List (NameToken × Tree)
  key : String
  text : name.text? = some key

namespace Insertion

/-- The object without the member. -/
def old (i : Insertion) : Tree := .object (i.before ++ i.after)

/-- The object with the member. -/
def new (i : Insertion) : Tree := .object (i.before ++ (i.name, i.value) :: i.after)

/-- What is found is a closed record of these names, and the member has another. -/
def Foreign (i : Insertion) (names : List String) (found : Option (List String × Spot)) : Prop :=
  ∃ path demanded, found = some (path, .record true names demanded) ∧ i.key ∉ names

theorem foreign_inField_iff {i : Insertion} {names : List String} {name : String}
    {found : Option (List String × Spot)} :
    i.Foreign names (inField name found) ↔ i.Foreign names found := by
  constructor
  · rintro ⟨path, demanded, h, hkey⟩
    obtain ⟨e, rfl, heq⟩ := Option.map_eq_some_iff.mp h
    exact ⟨e.1, demanded, congrArg _ (Prod.ext rfl (Prod.mk.inj heq).2), hkey⟩
  · rintro ⟨path, demanded, rfl, hkey⟩
    exact ⟨name :: path, demanded, rfl, hkey⟩

end Insertion

section

variable {i : Insertion} {names : List String}

theorem not_foreign_none : ¬i.Foreign names none := fun ⟨_, _, h, _⟩ => nomatch h

/-- The member that was put into a record is the first that the record does not take. -/
theorem Fields.Assigns.foldMembers_foreign {β π : Type} {fields : Fields β π}
    (hassigns : fields.Assigns) {closed : Bool} {path : List String}
    (h : i.Foreign names (some (path, .record closed fields.names fields.demanded)))
    (htakes : fields.Takes closed (fun _ => False) (i.before ++ i.after))
    (hfits : ∀ m ∈ i.before ++ i.after, ∀ key ∈ m.1.text?, fields.FitsMember key m.2)
    {s r : Octets}
    (hs : Spaced (Tree.memberTokens true (i.before ++ (i.name, i.value) :: i.after)) s r) :
    foldMembers (fields.member closed) true fields.blank s =
      .error (.unknownMember i.key names) := by
  obtain ⟨path', demanded, heq, hkey⟩ := h
  cases heq
  refine hassigns.foldMembers_refuses i.text i.after ?_ i.before true _ ?_ ?_ hs
  · intro slots t m _ _ _
    unfold Fields.member
    rw [(fields.assign_eq_none_iff slots i.key t).mpr hkey]
    rfl
  · exact takes_blank_iff.mpr htakes
  · exact fun m hm => hfits m (List.mem_append_left _ hm)

/-- A fault in an object's members is the fault of the record. -/
theorem Shape.read_record_of_object {α β π : Type} {name : String} {closed : Bool}
    {fields : Fields β π} {make : β → α} {parts : α → β} {s t : Octets} {f : Fault}
    (hs : skipSpace s = Ascii.openBrace :: t)
    (h : foldMembers (fields.member closed) true fields.blank t = .error f) :
    (Shape.record name closed fields make parts).read s = .error f := by
  rw [Shape.read]
  dsimp only
  rw [withNext_eq hs, if_pos rfl]
  change (do
    let p ← foldMembers (fields.member closed) true fields.blank t
    let b ← fields.complete p.value
    return (p.map fun _ => make b).after (length_lt_of_skipSpace hs)) = _
  rw [h]
  rfl

/-- A fault in the items of a list is the fault of the record. -/
theorem Shape.read_record_of_list {α β π : Type} {name : String} {closed : Bool}
    {fields : Fields β π} {make : β → α} {parts : α → β} {s t : Octets} {f : Fault}
    (hs : skipSpace s = Ascii.openBracket :: t)
    (h : fields.inOrder name fields.names.length 0 t = .error f) :
    (Shape.record name closed fields make parts).read s = .error f := by
  rw [Shape.read]
  dsimp only
  rw [withNext_eq hs, if_neg (by decide), if_pos rfl, h]
  rfl

/-! ### One constructor after another -/

/-- Documents of the shape are refused when they get the member, and the fault names it. -/
def Shape.RefusesForeign {α : Type} (shape : Shape α) (i : Insertion) (names : List String) :
    Prop :=
  ∀ c : Context, shape.Fits (c.fill i.old) → i.Foreign names (shape.locate c) →
    Refuses shape.read (c.fill i.new) (.unknownMember i.key names)

/-- So is the value of a field in an object, as long as the field was not read before. -/
def Fields.AssignsForeign {β π : Type} (fields : Fields β π) (i : Insertion) (names : List String) :
    Prop :=
  ∀ (c : Context) (closed : Bool) (key : String) (slots : π),
    fields.FitsMember key (c.fill i.old) → i.Foreign names (fields.locateMember closed key c) →
      (key ∈ fields.names → ¬fields.Holds slots key) → ∀ s r,
        Spaced ([Ascii.colon] :: (c.fill i.new).tokens) s r → Delimited r →
          fields.assign slots key s = some (.error (.unknownMember i.key names))

/-- So is the value of a field in a list. -/
def Fields.OrdersForeign {β π : Type} (fields : Fields β π) (i : Insertion) (names : List String) :
    Prop :=
  ∀ (before : List Tree) (c : Context) (after : List Tree),
    fields.FitsItems (before ++ c.fill i.old :: after) →
      i.Foreign names (fields.locateItem before.length c) →
        ∀ (record : String) (total taken : Nat) s r,
          Spaced (Tree.itemTokens (taken == 0) (before ++ c.fill i.new :: after)) s r →
            fields.inOrder record total taken s = .error (.unknownMember i.key names)

namespace Shape

variable {α β π : Type}

/-- Where nothing is looked into there is no record. -/
theorem refusesForeign_of_locate {shape : Shape α}
    (h : ∀ c, ∀ e ∈ shape.locate c, ∀ closed names demanded, e.2 ≠ .record closed names demanded) :
    shape.RefusesForeign i names := by
  rintro c - ⟨path, demanded, hlocate, -⟩
  exact absurd rfl (h c _ hlocate true names demanded)

theorem refusesForeign_list {item : Shape α} (hlawful : item.Lawful)
    (h : item.RefusesForeign i names) : item.list.RefusesForeign i names := by
  intro c hfits hnew
  cases c with
  | hole => exact absurd hfits not_fits_list_object
  | member before name c after => exact absurd hfits not_fits_list_object
  | item before c after =>
    rw [locate] at hnew
    obtain ⟨hbefore, hitem, -⟩ :=
      List.forall_mem_append.mp (fits_list_iff.mp hfits) |>.imp_right List.forall_mem_cons.mp
    intro s r hs _
    rw [Context.fill, Tree.tokens] at hs
    obtain ⟨t, hs, hxs⟩ := hs
    rw [List.singleton_append] at hs
    rw [read]
    dsimp only
    rw [withNext_eq hs, if_pos rfl, listItems_refuses item.skips (item.reads_iff hlawful)
      (h c hitem hnew) before hbefore true hxs]
    rfl

/-- A tree with a hole where an object stands does not begin as null does. -/
theorem exists_lead_fill {c : Context} {ms : List (NameToken × Tree)} {s r : Octets}
    (hs : Spaced (c.fill (.object ms)).tokens s r) :
    ∃ d t, skipSpace s = d :: t ∧ d ≠ Ascii.lowerN := by
  obtain ⟨token, d, t, hscalar, -⟩ | ⟨xs, t, -, hskip, -⟩ | ⟨ms, t, -, hskip, -⟩ :=
    Tree.kinds_of_spaced hs
  · cases c <;> cases hscalar
  · exact ⟨_, t, hskip, by decide⟩
  · exact ⟨_, t, hskip, by decide⟩

theorem refusesForeign_nullable {inner : Shape α} (h : inner.RefusesForeign i names) :
    inner.nullable.RefusesForeign i names := by
  intro c hfits hnew s r hs hr
  rw [Fits, Insertion.old, scalar?_fill_object, or_iff_right (by simp)] at hfits
  rw [locate] at hnew
  obtain ⟨d, t, hskip, hd⟩ := exists_lead_fill hs
  rw [read]
  dsimp only
  rw [withNext_eq hskip, if_neg hd, h c hfits hnew s r hs hr]
  rfl

section

variable {name : String} {closed : Bool} {fields : Fields β π} {make : β → α} {parts : α → β}

/-- The member stands in the record itself. -/
theorem refuses_record_hole (hfields : fields.Lawful)
    (hfits : (record name closed fields make parts).Fits i.old)
    (hnew : i.Foreign names (some ([], .record closed fields.names fields.demanded))) :
    Refuses (record name closed fields make parts).read i.new (.unknownMember i.key names) := by
  intro s r hs _
  obtain ⟨htakes, hall, -⟩ := fits_record_object_iff.mp hfits
  rw [Insertion.new, Tree.tokens] at hs
  obtain ⟨t, hs, hms⟩ := hs
  exact read_record_of_object hs
    ((fields.assigns hfields).foldMembers_foreign hnew htakes hall hms)

/-- The member stands within the value of a member of the record. -/
theorem refuses_record_member (hfields : fields.Lawful) (h : fields.AssignsForeign i names)
    {before after : List (NameToken × Tree)} {token : NameToken} {c : Context}
    (hfits : (record name closed fields make parts).Fits
      (.object (before ++ (token, c.fill i.old) :: after)))
    (hnew : i.Foreign names (token.text?.bind fun key => fields.locateMember closed key c)) :
    Refuses (record name closed fields make parts).read
      (.object (before ++ (token, c.fill i.new) :: after)) (.unknownMember i.key names) := by
  intro s r hs _
  obtain ⟨htakes, hall, -⟩ := fits_record_object_iff.mp hfits
  obtain ⟨hbefore, hown, -⟩ := List.forall_mem_append.mp hall |>.imp_right List.forall_mem_cons.mp
  rw [Tree.tokens] at hs
  obtain ⟨t, hs, hms⟩ := hs
  refine read_record_of_object hs ?_
  cases hkey : token.text? with
  | none =>
    rw [hkey] at hnew
    exact absurd hnew not_foreign_none
  | some key =>
    rw [hkey, Option.bind_some] at hnew
    refine (fields.assigns hfields).foldMembers_refuses hkey _
      (fun slots t m hslots ht hm => ?_) before true _ (Fields.takes_blank_iff.mpr htakes)
      hbefore hms
    have hfresh := ((Fields.takes_cons_iff hkey).mp hslots).1.1
    unfold Fields.member
    rw [h c closed key slots (hown key hkey) hnew hfresh t m ht hm]

/-- The member stands within the value of a field of the record, which is given as a list. -/
theorem refuses_record_item (h : fields.OrdersForeign i names) {before after : List Tree}
    {c : Context}
    (hfits : (record name closed fields make parts).Fits (.list (before ++ c.fill i.old :: after)))
    (hnew : i.Foreign names (fields.locateItem before.length c)) :
    Refuses (record name closed fields make parts).read (.list (before ++ c.fill i.new :: after))
      (.unknownMember i.key names) := by
  intro s r hs _
  rw [Tree.tokens] at hs
  obtain ⟨t, hs, hxs⟩ := hs
  exact read_record_of_list hs
    (h before c after (fits_record_list_iff.mp hfits) hnew _ _ 0 t r hxs)

theorem refusesForeign_record (hfields : fields.Lawful) (hassigns : fields.AssignsForeign i names)
    (horders : fields.OrdersForeign i names) :
    (record name closed fields make parts).RefusesForeign i names := by
  intro c hfits hnew
  cases c <;> rw [locate] at hnew
  case hole => exact refuses_record_hole hfields hfits hnew
  case member => exact refuses_record_member hfields hassigns hfits hnew
  case item => exact refuses_record_item horders hfits hnew

end

end Shape

mutual

/-- **The fault of a document with a foreign member names that member.** -/
theorem Shape.read_foreign : {α : Type} → (shape : Shape α) → shape.Lawful →
    shape.RefusesForeign i names
  | _, .text, _ => Shape.refusesForeign_of_locate fun c e he => by
    rw [Shape.locate] at he
    cases he
  | _, .integer _, _ => Shape.refusesForeign_of_locate fun c e he => by
    rw [Shape.locate] at he
    cases he
  | _, .flag, _ => Shape.refusesForeign_of_locate fun c e he => by
    rw [Shape.locate] at he
    cases he
  | _, .payload, _ => Shape.refusesForeign_of_locate fun c e he => by
    rw [Shape.locate] at he
    cases he
    exact nofun
  | _, .dict _, _ => Shape.refusesForeign_of_locate fun c e he => by
    rw [Shape.locate] at he
    cases he
    exact nofun
  | _, .choice _ _, _ => Shape.refusesForeign_of_locate fun c e he => by
    cases c <;> rw [Shape.locate] at he <;> cases he
    exact nofun
  | _, .list item, hlawful => by
    rw [Shape.Lawful] at hlawful
    exact Shape.refusesForeign_list hlawful (item.read_foreign hlawful)
  | _, .nullable inner, hlawful => by
    rw [Shape.Lawful] at hlawful
    exact Shape.refusesForeign_nullable (inner.read_foreign hlawful)
  | _, .record _ _ fields _ _, hlawful => by
    rw [Shape.Lawful] at hlawful
    obtain ⟨-, -, -, hfields⟩ := hlawful
    exact Shape.refusesForeign_record hfields (fields.assign_foreign hfields)
      (fields.inOrder_foreign hfields)

theorem Fields.assign_foreign : {β π : Type} → (fields : Fields β π) → fields.Lawful →
    fields.AssignsForeign i names
  | _, _, .done, _ => by
    rintro c closed key slots - ⟨_, _, h, _⟩
    rw [Fields.locateMember] at h
    split at h <;> cases h
  | _, _, .field name presence shape rest, hlawful => by
    rw [Fields.Lawful] at hlawful
    rintro c closed key ⟨slot, slots⟩ hfits hnew hfresh s r hs hr
    rw [Fields.FitsMember] at hfits
    rw [Fields.locateMember] at hnew
    rw [Fields.names, List.mem_cons, Fields.Holds] at hfresh
    rw [Fields.assign]
    by_cases hkey : key = name
    · rw [if_pos hkey] at hfits hnew hfresh ⊢
      obtain ⟨t, hcolon, hx⟩ := hs
      have hread := shape.read_foreign hlawful.2.1 c hfits (Insertion.foreign_inField_iff.mp hnew)
        t r hx hr
      rw [if_neg (hfresh (.inl hkey)), readMember_error hcolon hread]
      rfl
    · rw [if_neg hkey] at hfits hnew hfresh ⊢
      rw [rest.assign_foreign hlawful.2.2 c closed key slots hfits hnew (fun h => hfresh (.inr h))
        s r hs hr]
      rfl

theorem Fields.inOrder_foreign : {β π : Type} → (fields : Fields β π) → fields.Lawful →
    fields.OrdersForeign i names
  | _, _, .done, _ => by
    intro before c after _ hnew
    rw [Fields.locateItem] at hnew
    exact absurd hnew not_foreign_none
  | _, _, .field name presence shape rest, hlawful => by
    rw [Fields.Lawful] at hlawful
    intro before c after hfits hnew record total taken s r hs
    cases before with
    | nil =>
      rw [List.length_nil, Fields.locateItem] at hnew
      rw [List.nil_append, Fields.FitsItems] at hfits
      rw [List.nil_append] at hs
      obtain ⟨t, ht, m, hnext, hx, hxs, hm⟩ := exists_item hs
      rw [Fields.inOrder, hnext]
      dsimp only
      rw [shape.read_foreign hlawful.2.1 c hfits.1 (Insertion.foreign_inField_iff.mp hnew) t m hx
        hm]
    | cons y before =>
      rw [List.length_cons, Fields.locateItem] at hnew
      rw [List.cons_append, Fields.FitsItems] at hfits
      rw [List.cons_append] at hs
      obtain ⟨t, ht, m, hnext, hy, hys, hm⟩ := exists_item hs
      obtain ⟨a, ha⟩ := (shape.reads_iff hlawful.2.1 y t m hy hm).mpr hfits.1
      obtain ⟨hlt, ha⟩ := taken?_eq_some_iff.mp ha
      rw [Fields.inOrder, hnext]
      dsimp only
      rw [ha]
      dsimp only
      rw [rest.inOrder_foreign hlawful.2.2 before c after hfits.2 hnew record total (taken + 1) _ _
        hys]
      rfl

end

end

end FleetPlan.Json
