/-
Which documents a shape takes.

`Shape.Fits` says it of the tree of a document, by the shape: nothing about octets, space or
the order in which a reader goes through them.  A shape reads a writing of a tree just when
the tree fits (`Shape.reads_iff`), so whether a document is taken depends on its tree alone.

Of a record the condition is `Fields.Takes`: the names of the members are texts, those of
the record occur once, a closed record has no other, and no name is missing that an object
has to have.  Given as a list a record takes its fields in their order.
-/
import FleetPlan.Proofs.Json.Judges

namespace FleetPlan.Json

/-! ### The conditions -/

/-- The names of members, as far as they are texts. -/
def Tree.keys (ms : List (NameToken × Tree)) : List String := ms.filterMap (·.1.text?)

namespace Fields

variable {β π : Type}

/-- The names that an object has to have. -/
def demanded : {β π : Type} → Fields β π → List String
  | _, _, done => []
  | _, _, field name presence _ rest =>
    if presence.inObject.isNone then name :: rest.demanded else rest.demanded

/-- The members are named as a record's object may go on when some are there already. -/
structure Takes (fields : Fields β π) (closed : Bool) (there : String → Prop)
    (ms : List (NameToken × Tree)) : Prop where
  texts : ∀ m ∈ ms, m.1.text?.isSome
  known : closed = true → ∀ key ∈ Tree.keys ms, key ∈ fields.names
  once : ((Tree.keys ms).filter (· ∈ fields.names)).Nodup
  fresh : ∀ key ∈ Tree.keys ms, key ∈ fields.names → ¬there key

end Fields

mutual

/-- The tree is what a value of the shape is written as. -/
def Shape.Fits : {α : Type} → Shape α → Tree → Prop
  | _, .text, x => (x.scalar? Value.asText?).isSome
  | _, .integer range, x => (x.scalar? (Value.asInteger? range)).isSome
  | _, .flag, x => (x.scalar? Value.asBoolean?).isSome
  | _, .payload, x => x.IsText
  | _, .choice options name, x => x.Chooses (options.map name)
  | _, .list item, x => ∃ xs, x = .list xs ∧ ∀ y ∈ xs, item.Fits y
  | _, .dict item, x => ∃ ms, x = .object ms ∧ ∀ m ∈ ms, m.1.text?.isSome ∧ item.Fits m.2
  | _, .nullable inner, x => (x.scalar? Value.asNull?).isSome ∨ inner.Fits x
  | _, .record _ closed fields _ _, x =>
    (∃ ms, x = .object ms ∧ fields.Takes closed (fun _ => False) ms ∧
      (∀ m ∈ ms, ∀ key ∈ m.1.text?, fields.FitsMember key m.2) ∧
      ∀ name ∈ fields.demanded, name ∈ Tree.keys ms) ∨
    ∃ xs, x = .list xs ∧ fields.FitsItems xs

/-- The tree fits the field of that name, if there is one. -/
def Fields.FitsMember : {β π : Type} → Fields β π → String → Tree → Prop
  | _, _, .done, _, _ => True
  | _, _, .field name _ shape rest, key, x =>
    if key = name then shape.Fits x else rest.FitsMember key x

/-- The trees fit the fields in their order, and what is behind them can be left out. -/
def Fields.FitsItems : {β π : Type} → Fields β π → List Tree → Prop
  | _, _, .done, xs => xs = []
  | _, _, .field _ presence _ rest, [] => presence.inList.isSome ∧ rest.FitsItems []
  | _, _, .field _ _ shape rest, x :: xs => shape.Fits x ∧ rest.FitsItems xs

end

namespace Shape

variable {α β π : Type} {xs : List Tree} {ms : List (NameToken × Tree)}

theorem fits_list_iff {item : Shape α} : item.list.Fits (.list xs) ↔ ∀ y ∈ xs, item.Fits y := by
  simp [Fits]

theorem not_fits_list_object {item : Shape α} : ¬item.list.Fits (.object ms) := by
  simp [Fits]

section

variable {name : String} {closed : Bool} {fields : Fields β π} {make : β → α} {parts : α → β}

theorem fits_record_object_iff : (record name closed fields make parts).Fits (.object ms) ↔
    fields.Takes closed (fun _ => False) ms ∧
      (∀ m ∈ ms, ∀ key ∈ m.1.text?, fields.FitsMember key m.2) ∧
        ∀ name ∈ fields.demanded, name ∈ Tree.keys ms := by
  simp only [Fits, reduceCtorEq, false_and, exists_false, or_false, Tree.object.injEq,
    exists_eq_left']

theorem fits_record_list_iff :
    (record name closed fields make parts).Fits (.list xs) ↔ fields.FitsItems xs := by
  simp only [Fits, reduceCtorEq, false_and, exists_false, false_or, Tree.list.injEq,
    exists_eq_left']

end

end Shape

/-! ### Gathering the members of a record -/

theorem Tree.keys_cons_of_text {name : NameToken} {key : String} (h : name.text? = some key)
    (x : Tree) (ms : List (NameToken × Tree)) : keys ((name, x) :: ms) = key :: keys ms :=
  List.filterMap_cons_some h

namespace Fields

variable {β π : Type}

/-- The field of that name was seen. -/
def Holds : {β π : Type} → Fields β π → π → String → Prop
  | _, _, done, _, _ => False
  | _, _, field name _ _ rest, (slot, slots), key =>
    if key = name then slot.isSome = true else rest.Holds slots key

theorem not_holds_blank : {β π : Type} → (fields : Fields β π) → (key : String) →
    ¬fields.Holds fields.blank key
  | _, _, done, _ => id
  | _, _, field name _ _ rest, key => by
    rw [blank, Holds]
    split
    · exact Bool.false_ne_true
    · exact rest.not_holds_blank key

theorem subset_names_of_demanded : {β π : Type} → (fields : Fields β π) → {key : String} →
    key ∈ fields.demanded → key ∈ fields.names
  | _, _, done, _, h => nomatch h
  | _, _, field name presence _ rest, key, h => by
    rw [demanded] at h
    rw [names]
    split at h
    · obtain rfl | h := List.mem_cons.mp h
      · exact List.mem_cons_self
      · exact List.mem_cons_of_mem _ (rest.subset_names_of_demanded h)
    · exact List.mem_cons_of_mem _ (rest.subset_names_of_demanded h)

/-- A field and those behind it are complete when it has a value and the others are. -/
theorem complete_field_eq_ok_iff {α β π : Type} {name : String} {presence : Presence α}
    {shape : Shape α} {rest : Fields β π} {slot : Option α} {slots : π} {a : α} {b : β} :
    (field name presence shape rest).complete (slot, slots) = .ok (a, b) ↔
      slot.or presence.inObject = some a ∧ rest.complete slots = .ok b := by
  rw [complete]
  cases slot.or presence.inObject with
  | none => simp [bind, Except.bind]
  | some a' => cases rest.complete slots <;> simp [bind, Except.bind, pure, Except.pure]

theorem exists_complete_field_iff {α : Type} (name : String) (presence : Presence α)
    (shape : Shape α) (rest : Fields β π) (slot : Option α) (slots : π) :
    (∃ b, (field name presence shape rest).complete (slot, slots) = .ok b) ↔
      (presence.inObject.isNone = true → slot.isSome = true) ∧
        ∃ b, rest.complete slots = .ok b := by
  rw [Prod.exists]
  simp only [complete_field_eq_ok_iff, exists_and_left, exists_and_right]
  cases slot <;> cases presence.inObject <;> simp

/-- A record is complete when all that is demanded was seen. -/
theorem exists_complete_iff : {β π : Type} → (fields : Fields β π) → fields.names.Nodup →
    (slots : π) →
      ((∃ b, fields.complete slots = .ok b) ↔ ∀ name ∈ fields.demanded, fields.Holds slots name)
  | _, _, done, _, _ => iff_of_true ⟨(), rfl⟩ (List.forall_mem_nil _)
  | _, _, field name presence shape rest, hnodup, (slot, slots) => by
    rw [names, List.nodup_cons] at hnodup
    have hown : (field name presence shape rest).Holds (slot, slots) name ↔ slot.isSome = true := by
      rw [Holds, if_pos rfl]
    have hother : (∀ key ∈ rest.demanded, (field name presence shape rest).Holds (slot, slots) key) ↔
        ∀ key ∈ rest.demanded, rest.Holds slots key := by
      refine forall₂_congr fun key hkey => ?_
      rw [Holds, if_neg]
      rintro rfl
      exact hnodup.1 (rest.subset_names_of_demanded hkey)
    rw [exists_complete_field_iff, rest.exists_complete_iff hnodup.2, ← hother, demanded, ← hown]
    split
    · rename_i hnone
      rw [List.forall_mem_cons, forall_prop_of_true hnone]
    · rename_i hsome
      exact and_iff_right fun hnone => absurd hnone hsome

theorem holds_assigned? : {β π : Type} → (fields : Fields β π) → {slots slots' : π} →
    {key : String} → {s r : Octets} → fields.assigned? slots key s = some (slots', r) →
      ∀ name, fields.Holds slots' name ↔ fields.Holds slots name ∨ name = key
  | _, _, done, _, _, _, _, _, h, _ => nomatch h
  | _, _, field own presence shape rest, (slot, slots), slots', key, s, r, h, name => by
    rw [assigned?_field] at h
    split at h
    · rename_i hown
      split at h
      · cases h
      · obtain ⟨⟨a, r'⟩, -, heq⟩ := Option.map_eq_some_iff.mp h
        obtain ⟨rfl, -⟩ := Prod.mk.inj heq
        rw [Holds, Holds, hown]
        split
        · rename_i hname
          exact iff_of_true rfl (.inr hname)
        · rename_i hname
          exact (or_iff_left hname).symm
    · rename_i hown
      obtain ⟨⟨slots₁, r'⟩, hassign, heq⟩ := Option.map_eq_some_iff.mp h
      obtain ⟨rfl, -⟩ := Prod.mk.inj heq
      rw [Holds, Holds]
      split
      · rename_i hname
        exact (or_iff_left fun h => hown (h.symm.trans hname)).symm
      · exact rest.holds_assigned? hassign name

theorem fitsMember_of_not_mem : {β π : Type} → (fields : Fields β π) → {key : String} →
    key ∉ fields.names → (x : Tree) → fields.FitsMember key x
  | _, _, done, _, _, _ => by
    rw [FitsMember]
    trivial
  | _, _, field name _ _ rest, key, h, x => by
    rw [names, List.mem_cons, not_or] at h
    rw [FitsMember, if_neg h.1]
    exact rest.fitsMember_of_not_mem h.2 x

theorem Takes.congr {fields : Fields β π} {closed : Bool} {there there' : String → Prop}
    {ms : List (NameToken × Tree)} (h : ∀ name ∈ fields.names, there name ↔ there' name) :
    fields.Takes closed there ms ↔ fields.Takes closed there' ms :=
  ⟨fun t => ⟨t.texts, t.known, t.once,
      fun key hkey hmem => mt (h key hmem).mpr (t.fresh key hkey hmem)⟩,
    fun t => ⟨t.texts, t.known, t.once,
      fun key hkey hmem => mt (h key hmem).mp (t.fresh key hkey hmem)⟩⟩

theorem takes_nil (fields : Fields β π) (closed : Bool) (there : String → Prop) :
    fields.Takes closed there [] :=
  ⟨List.forall_mem_nil _, fun _ => List.forall_mem_nil _, List.nodup_nil,
    fun _ h => nomatch h⟩

/-- Members are named as they may be when the first is, and the rest behind it. -/
theorem takes_cons_iff {fields : Fields β π} {closed : Bool} {there : String → Prop}
    {name : NameToken} {x : Tree} {ms : List (NameToken × Tree)} {key : String}
    (hname : name.text? = some key) :
    fields.Takes closed there ((name, x) :: ms) ↔
      ((key ∈ fields.names → ¬there key) ∧ (closed = true → key ∈ fields.names)) ∧
        fields.Takes closed (fun n => there n ∨ n = key) ms := by
  have hkeys := Tree.keys_cons_of_text hname x ms
  constructor
  · rintro ⟨htexts, hknown, honce, hfresh⟩
    rw [hkeys] at hknown honce hfresh
    refine ⟨⟨hfresh key List.mem_cons_self, fun h => hknown h key List.mem_cons_self⟩, ?_⟩
    refine ⟨fun m hm => htexts m (List.mem_cons_of_mem _ hm),
      fun h k hk => hknown h k (List.mem_cons_of_mem _ hk), ?_, ?_⟩
    · exact honce.sublist ((List.sublist_cons_self ..).filter _)
    · rintro k hk hmem (hthere | rfl)
      · exact hfresh k (List.mem_cons_of_mem _ hk) hmem hthere
      · rw [List.filter_cons_of_pos (by simpa using hmem), List.nodup_cons] at honce
        exact honce.1 (List.mem_filter.mpr ⟨hk, by simpa using hmem⟩)
  · rintro ⟨⟨hnew, hin⟩, htexts, hknown, honce, hfresh⟩
    refine ⟨List.forall_mem_cons.mpr ⟨by simp [hname], htexts⟩, ?_, ?_, ?_⟩
    · rw [hkeys]
      exact fun h => List.forall_mem_cons.mpr ⟨hin h, hknown h⟩
    · rw [hkeys]
      by_cases hmem : key ∈ fields.names
      · rw [List.filter_cons_of_pos (by simpa using hmem), List.nodup_cons]
        refine ⟨fun h => ?_, honce⟩
        exact hfresh key (List.mem_filter.mp h).1 hmem (.inr rfl)
      · rwa [List.filter_cons_of_neg (by simpa using hmem)]
    · rw [hkeys]
      refine List.forall_mem_cons.mpr ⟨hnew, fun k hk hmem hthere => ?_⟩
      exact hfresh k hk hmem (.inl hthere)

/-- Each field reads just what fits it, when it was not seen before. -/
def Assigns (fields : Fields β π) : Prop :=
  ∀ slots key, key ∈ fields.names → JudgesMember (fields.assigned? slots key) fun x =>
    ¬fields.Holds slots key ∧ fields.FitsMember key x

/-- A member is taken when it may be there and fits. -/
theorem Assigns.member {fields : Fields β π} (h : fields.Assigns) (closed : Bool) (slots : π)
    (key : String) :
    JudgesMember (fun s => taken? (fields.member closed slots key s)) fun x =>
      ((key ∈ fields.names → ¬fields.Holds slots key) ∧ (closed = true → key ∈ fields.names)) ∧
        fields.FitsMember key x := by
  intro x s r hx hr
  dsimp only
  rw [taken?_member]
  by_cases hmem : key ∈ fields.names
  · rw [if_pos hmem, h slots key hmem x s r hx hr]
    simp [hmem]
  · rw [if_neg hmem]
    cases closed with
    | true => simp [hmem]
    | false =>
      obtain ⟨u, hu⟩ := (judges_skipValue.readMember x s r hx hr).mpr trivial
      dsimp only at hu
      simp [hmem, hu, fields.fitsMember_of_not_mem hmem x]

/-- A member of the record's names is there from then on. -/
theorem holds_member {fields : Fields β π} {closed : Bool} {slots slots' : π} {key : String}
    {s r : Octets} (h : taken? (fields.member closed slots key s) = some (slots', r)) :
    ∀ name ∈ fields.names, fields.Holds slots' name ↔ fields.Holds slots name ∨ name = key := by
  intro name hname
  rw [taken?_member] at h
  split at h
  · exact fields.holds_assigned? h name
  · rename_i hmem
    split at h
    · cases h
    · obtain ⟨e, -, heq⟩ := Option.map_eq_some_iff.mp h
      obtain ⟨rfl, -⟩ := Prod.mk.inj heq
      refine (or_iff_left ?_).symm
      rintro rfl
      exact hmem hname

/-- Gathering goes on from a member just when it is taken. -/
theorem foldMembers_cons_iff {fields : Fields β π} {closed first : Bool} {name : NameToken}
    {x : Tree} {ms : List (NameToken × Tree)} {s r : Octets}
    (h : Spaced (Tree.memberTokens first ((name, x) :: ms)) s r) :
    ∃ t m, Spaced ([Ascii.colon] :: x.tokens) t m ∧ Spaced (Tree.memberTokens false ms) m r ∧
      ∀ slots slots', (taken? (foldMembers (fields.member closed) first slots s) = some (slots', r) ↔
        ∃ key ∈ name.text?, ∃ slots₁, taken? (fields.member closed slots key t) = some (slots₁, m) ∧
          taken? (foldMembers (fields.member closed) false slots₁ m) = some (slots', r)) := by
  obtain ⟨t, m, hx, hms, hfold⟩ := taken?_foldMembers_cons (fields.member closed) h
  refine ⟨t, m, hx, hms, fun slots slots' => ?_⟩
  rw [hfold]
  constructor
  · intro hread
    obtain ⟨key, hkey, hread⟩ := Option.bind_eq_some_iff.mp hread
    obtain ⟨⟨slots₁, t'⟩, hslots₁, hrest⟩ := Option.bind_eq_some_iff.mp hread
    obtain rfl : t' = m :=
      (skipsMember_member (fields.skips_assigned? slots key) closed).rest_eq hx
        (delimited_of_members hms) hslots₁
    exact ⟨key, hkey, slots₁, hslots₁, hrest⟩
  · rintro ⟨key, hkey, slots₁, hslots₁, hrest⟩
    rw [Option.mem_def.mp hkey, Option.bind_some, hslots₁, Option.bind_some, hrest]

/-- What is there in the end was there before or is among the members. -/
theorem holds_foldMembers {fields : Fields β π} {closed : Bool} {slots' : π} :
    (ms : List (NameToken × Tree)) → (first : Bool) → (slots : π) → {s r : Octets} →
      Spaced (Tree.memberTokens first ms) s r →
        taken? (foldMembers (fields.member closed) first slots s) = some (slots', r) →
          ∀ name ∈ fields.names, fields.Holds slots' name ↔
            fields.Holds slots name ∨ name ∈ Tree.keys ms
  | [], first, slots, s, r, hs, hread, name, hname => by
    rw [taken?_foldMembers_nil hs] at hread
    obtain ⟨rfl, -⟩ := Prod.mk.inj (Option.some.inj hread)
    simp [Tree.keys]
  | (token, x) :: ms, first, slots, s, r, hs, hread, name, hname => by
    obtain ⟨t, m, -, hms, hfold⟩ := foldMembers_cons_iff hs
    obtain ⟨key, hkey, slots₁, hslots₁, hrest⟩ := (hfold _ _).mp hread
    rw [holds_foldMembers ms false slots₁ hms hrest name hname, holds_member hslots₁ name hname,
      Tree.keys_cons_of_text hkey x ms, List.mem_cons, or_assoc]

/-- The members are gathered just when they are named as they may be, and each fits. -/
theorem Assigns.exists_foldMembers_iff {fields : Fields β π} (h : fields.Assigns) (closed : Bool) :
    (ms : List (NameToken × Tree)) → (first : Bool) → (slots : π) → {s r : Octets} →
      Spaced (Tree.memberTokens first ms) s r →
        ((∃ slots', taken? (foldMembers (fields.member closed) first slots s) = some (slots', r)) ↔
          fields.Takes closed (fields.Holds slots) ms ∧
            ∀ m ∈ ms, ∀ key ∈ m.1.text?, fields.FitsMember key m.2)
  | [], first, slots, s, r, hs =>
    iff_of_true ⟨slots, taken?_foldMembers_nil hs slots⟩
      ⟨fields.takes_nil closed _, List.forall_mem_nil _⟩
  | (name, x) :: ms, first, slots, s, r, hs => by
    constructor
    · rintro ⟨slots', hread⟩
      obtain ⟨t, m, hx, hms, hfold⟩ := foldMembers_cons_iff hs
      obtain ⟨key, hkey, slots₁, hslots₁, hrest⟩ := (hfold _ _).mp hread
      obtain ⟨hmay, hfits⟩ :=
        (h.member closed slots key x t m hx (delimited_of_members hms)).mp ⟨slots₁, hslots₁⟩
      obtain ⟨htakes, hall⟩ :=
        (h.exists_foldMembers_iff closed ms false slots₁ hms).mp ⟨slots', hrest⟩
      refine ⟨(takes_cons_iff hkey).mpr ⟨hmay, (Takes.congr (holds_member hslots₁)).mp htakes⟩,
        List.forall_mem_cons.mpr ⟨fun key' hkey' => ?_, hall⟩⟩
      rwa [Option.mem_unique hkey' hkey]
    · rintro ⟨htakes, hall⟩
      obtain ⟨key, hkey⟩ := Option.isSome_iff_exists.mp (htakes.texts _ List.mem_cons_self)
      obtain ⟨hmay, hrest⟩ := (takes_cons_iff hkey).mp htakes
      obtain ⟨hfits, hall⟩ := List.forall_mem_cons.mp hall
      obtain ⟨t, m, hx, hms, hfold⟩ := foldMembers_cons_iff hs
      obtain ⟨slots₁, hslots₁⟩ :=
        (h.member closed slots key x t m hx (delimited_of_members hms)).mpr ⟨hmay, hfits key hkey⟩
      obtain ⟨slots', hread⟩ := (h.exists_foldMembers_iff closed ms false slots₁ hms).mpr
        ⟨(Takes.congr (holds_member hslots₁)).mpr hrest, hall⟩
      exact ⟨slots', (hfold _ _).mpr ⟨key, hkey, slots₁, hslots₁, hread⟩⟩

/-- Nothing is there at first. -/
theorem takes_blank_iff {fields : Fields β π} {closed : Bool} {ms : List (NameToken × Tree)} :
    fields.Takes closed (fields.Holds fields.blank) ms ↔ fields.Takes closed (fun _ => False) ms :=
  Takes.congr fun name _ => iff_false_intro (fields.not_holds_blank name)

/-- A record is made of the members of an object just when they may be there, each fits, and none
is missing. -/
theorem Assigns.exists_made_iff {α : Type} {fields : Fields β π} (h : fields.Assigns)
    (hnodup : fields.names.Nodup) (make : β → α) {closed : Bool} {ms : List (NameToken × Tree)}
    {s r : Octets} (hs : Spaced (Tree.memberTokens true ms) s r) :
    (∃ a, ((taken? (foldMembers (fields.member closed) true fields.blank s)).bind fun e =>
        (fields.complete e.1).toOption.map fun b => (make b, e.2)) = some (a, r)) ↔
      fields.Takes closed (fun _ => False) ms ∧
        (∀ m ∈ ms, ∀ key ∈ m.1.text?, fields.FitsMember key m.2) ∧
          ∀ name ∈ fields.demanded, name ∈ Tree.keys ms := by
  have hfold := h.exists_foldMembers_iff closed ms true fields.blank hs
  rw [takes_blank_iff] at hfold
  have hcomplete {slots} (hread : taken? (foldMembers (fields.member closed) true fields.blank s) =
      some (slots, r)) : (∃ b, fields.complete slots = .ok b) ↔
        ∀ name ∈ fields.demanded, name ∈ Tree.keys ms := by
    rw [fields.exists_complete_iff hnodup]
    refine forall₂_congr fun name hname => ?_
    rw [holds_foldMembers ms true _ hs hread name (fields.subset_names_of_demanded hname)]
    exact or_iff_right (fields.not_holds_blank name)
  constructor
  · rintro ⟨a, hmade⟩
    obtain ⟨⟨slots, r'⟩, hread, hmade⟩ := Option.bind_eq_some_iff.mp hmade
    obtain ⟨b, hb, heq⟩ := Option.map_eq_some_iff.mp hmade
    obtain ⟨-, rfl⟩ := Prod.mk.inj heq
    obtain ⟨htakes, hall⟩ := hfold.mp ⟨slots, hread⟩
    exact ⟨htakes, hall, (hcomplete hread).mp ⟨b, toOption_eq_some_iff.mp hb⟩⟩
  · rintro ⟨htakes, hall, hdemanded⟩
    obtain ⟨slots, hread⟩ := hfold.mpr ⟨htakes, hall⟩
    obtain ⟨b, hb⟩ := (hcomplete hread).mpr hdemanded
    exact ⟨make b, by rw [hread, Option.bind_some, toOption_eq_some_iff.mpr hb]; rfl⟩

theorem isSome_short?_iff {β π : Type} (fields : Fields β π) :
    fields.short?.isSome = true ↔ fields.FitsItems [] := by
  cases fields with
  | done =>
    rw [FitsItems, short?]
    exact iff_of_true rfl rfl
  | field name presence shape rest =>
    rw [FitsItems, short?, ← rest.isSome_short?_iff]
    cases presence.inList <;> simp

end Fields

/-! ### Shapes -/

section

variable {α : Type}

theorem Judges.read_list {item : Shape α} (h : Judges (fun s => taken? (item.read s)) item.Fits) :
    Judges (fun s => taken? (item.list.read s)) item.list.Fits := by
  intro x s r hx hr
  simp only [Shape.taken?_read_list, Shape.Fits]
  obtain ⟨token, c, t, rfl, hs, hc, -⟩ | ⟨xs, t, rfl, hs, hxs⟩ | ⟨ms, t, rfl, hs, -⟩ :=
    Tree.kinds_of_spaced hx
  · simp [hs, hc]
  · rw [hs]
    simp only [if_pos]
    rw [exists_listItems_iff item.skips h xs true hxs]
    simp
  · simp [hs, show Ascii.openBrace ≠ Ascii.openBracket by decide]

theorem Judges.read_dict {item : Shape α} (h : Judges (fun s => taken? (item.read s)) item.Fits) :
    Judges (fun s => taken? (item.dict.read s)) item.dict.Fits := by
  intro x s r hx hr
  simp only [Shape.taken?_read_dict, Shape.Fits]
  obtain ⟨token, c, t, rfl, hs, -, hc⟩ | ⟨xs, t, rfl, hs, -⟩ | ⟨ms, t, rfl, hs, hms⟩ :=
    Tree.kinds_of_spaced hx
  · simp [hs, hc]
  · simp [hs, show Ascii.openBracket ≠ Ascii.openBrace by decide]
  · rw [hs]
    simp only [if_pos]
    rw [exists_foldMembers_iff (P := item.Fits) (fun d key => ?_) (fun d key => ?_) ms true _ hms]
    · simp
    · intro s d' r hread
      simp only [taken?_map_map_eq_some_iff] at hread
      obtain ⟨a, hread, -⟩ := hread
      exact skips_readMember item.skips _ _ _ hread
    · intro x s r hx hr
      rw [← h.readMember x s r hx hr]
      simp [taken?_map_map]

theorem Judges.read_nullable {inner : Shape α}
    (h : Judges (fun s => taken? (inner.read s)) inner.Fits) :
    Judges (fun s => taken? (inner.nullable.read s)) inner.nullable.Fits := by
  intro x s r hx hr
  have hunit := readsScalars_readUnit.reads_iff hx hr
  rw [Shape.Fits, ← h x s r hx hr, ← hunit]
  simp only [inner.taken?_read_nullable_inner, taken?_readUnit]
  have hvalue := x.value?_of_spaced [] hx hr
  rw [Scan.value?_eq, Scan.after?_nil] at hvalue
  cases hs : skipSpace s with
  | nil =>
    rw [hs] at hvalue
    cases hvalue
  | cons c t =>
    by_cases hc : c = Ascii.lowerN
    · -- A tree that begins like null is null, so nothing is lost by not asking `inner`.
      have hnull : taken? (dropWord nullTail t) = some ((), r) := by
        have hopened : Scan.Frame.opened? Ascii.lowerN = none := by decide
        rw [hs, hc] at hvalue
        simp only [hopened] at hvalue
        rw [Scan.taken?_skipScalar_cons, if_neg (by decide), if_pos rfl] at hvalue
        obtain ⟨e, he, hafter⟩ := Option.bind_eq_some_iff.mp hvalue
        rw [Scan.after?_nil] at hafter
        rwa [← Option.some.inj hafter]
      simp [hc, hnull]
    · simp [hc]

theorem Judges.read_record {β π : Type} {name : String} {closed : Bool} {fields : Fields β π}
    {make : β → α} {parts : α → β} (hnodup : fields.names.Nodup) (hassigns : fields.Assigns)
    (hlisted : ∀ xs s r, Spaced (Tree.itemTokens true xs) s r →
      ((∃ b, fields.listed? name fields.names.length 0 s = some (b, r)) ↔ fields.FitsItems xs)) :
    Judges (fun s => taken? ((Shape.record name closed fields make parts).read s))
      (Shape.record name closed fields make parts).Fits := by
  intro x s r hx hr
  simp only [Shape.taken?_read_record, Shape.Fits]
  obtain ⟨token, c, t, rfl, hs, hc, hc'⟩ | ⟨xs, t, rfl, hs, hxs⟩ | ⟨ms, t, rfl, hs, hms⟩ :=
    Tree.kinds_of_spaced hx
  · simp [hs, hc, hc']
  · rw [hs]
    simp only [show Ascii.openBracket ≠ Ascii.openBrace by decide, if_false, if_true]
    simp [← hlisted xs t r hxs]
  · rw [hs]
    simp only [if_true]
    rw [hassigns.exists_made_iff hnodup make hms]
    constructor
    · exact fun h => .inl ⟨ms, rfl, h⟩
    · rintro (⟨ms', heq, h⟩ | ⟨xs, h, -⟩)
      · cases heq
        exact h
      · cases h

end

mutual

/-- **A shape takes a document, however it is laid out, just when its tree fits.** -/
theorem Shape.reads_iff : {α : Type} → (shape : Shape α) → shape.Lawful →
    Judges (fun s => taken? (shape.read s)) shape.Fits
  | _, .text, _ => fun x s r hx hr => by
    simp only [Shape.read, Shape.Fits]
    exact readsScalars_readString.reads_iff hx hr
  | _, .integer range, _ => fun x s r hx hr => by
    simp only [Shape.read, Shape.Fits]
    exact (readsScalars_readInteger range).reads_iff hx hr
  | _, .flag, _ => fun x s r hx hr => by
    simp only [Shape.read, Shape.Fits]
    exact readsScalars_readFlag.reads_iff hx hr
  | _, .payload, _ => fun x s r hx hr => by
    simp only [Shape.read, Shape.Fits]
    exact exists_payload_iff hx hr
  | _, .choice options name, _ => fun x s r hx hr => by
    simp only [Shape.read, Shape.Fits]
    exact judges_readChoice options name x s r hx hr
  | _, .list item, hlawful => by
    rw [Shape.Lawful] at hlawful
    exact (item.reads_iff hlawful).read_list
  | _, .dict item, hlawful => by
    rw [Shape.Lawful] at hlawful
    exact (item.reads_iff hlawful).read_dict
  | _, .nullable inner, hlawful => by
    rw [Shape.Lawful] at hlawful
    exact (inner.reads_iff hlawful).read_nullable
  | _, .record name closed fields make parts, hlawful => by
    rw [Shape.Lawful] at hlawful
    obtain ⟨-, -, hnodup, hfields⟩ := hlawful
    exact .read_record hnodup (fields.assigns hfields) fun xs s r h =>
      fields.listed_iff hfields xs h

theorem Fields.assigns : {β π : Type} → (fields : Fields β π) → fields.Lawful → fields.Assigns
  | _, _, .done, _ => fun _ _ h => nomatch h
  | _, _, .field name presence shape rest, hlawful => by
    rw [Fields.Lawful] at hlawful
    rintro ⟨slot, slots⟩ key hkey x s r hx hr
    have hread := (shape.reads_iff hlawful.2.1).readMember x s r hx hr
    simp only [Fields.assigned?_field, Fields.Holds, Fields.FitsMember]
    by_cases hname : key = name
    · simp only [if_pos hname]
      cases slot with
      | some a => simp
      | none =>
        simp only [Option.isSome_none, Bool.false_eq_true, if_false, not_false_eq_true, true_and]
        rw [← hread]
        simp
    · simp only [if_neg hname]
      rw [Fields.names, List.mem_cons, or_iff_right hname] at hkey
      have hrest := rest.assigns hlawful.2.2 slots key hkey x s r hx hr
      dsimp only at hrest
      rw [← hrest]
      simp

theorem Fields.listed_iff : {β π : Type} → (fields : Fields β π) → fields.Lawful →
    {record : String} → {total before : Nat} → (xs : List Tree) → {s r : Octets} →
      Spaced (Tree.itemTokens (before == 0) xs) s r →
        ((∃ b, fields.listed? record total before s = some (b, r)) ↔ fields.FitsItems xs)
  | _, _, .done, _, record, total, before, [], s, r, hs => by
    rw [Fields.listed?_done, Fields.FitsItems]
    rw [Tree.itemTokens] at hs
    obtain ⟨s', hs, rfl⟩ := hs
    rw [taken?_closeList hs]
    exact iff_of_true ⟨(), rfl⟩ rfl
  | _, _, .done, _, record, total, before, x :: xs, s, r, hs => by
    rw [Fields.listed?_done, Fields.FitsItems, taken?_closeList_of_items hs]
    exact iff_of_false (fun ⟨_, h⟩ => nomatch h) (List.cons_ne_nil x xs)
  | _, _, .field name presence shape rest, hlawful, record, total, before, [], s, r, hs => by
    rw [Tree.itemTokens] at hs
    obtain ⟨s', hs, rfl⟩ := hs
    rw [← Fields.isSome_short?_iff, Fields.listed?]
    rw [Fields.taken?_inOrder_of_close hs]
    cases (Fields.field name presence shape rest).short? with
    | none => simp
    | some b => simp [taken?_closeList hs]
  | _, _, .field name presence shape rest, hlawful, record, total, before, x :: xs, s, r, hs => by
    rw [Fields.Lawful] at hlawful
    obtain ⟨t, ht, m, hnext, hx, hxs, hm⟩ := exists_item hs
    have hhead := shape.reads_iff hlawful.2.1 x t m hx hm
    have hrest : (∃ b, rest.listed? record total (before + 1) m = some (b, r)) ↔ _ :=
      rest.listed_iff hlawful.2.2 xs hxs
    rw [Fields.listed?_field, atItem_of_next hnext, Fields.FitsItems, ← hhead, ← hrest]
    exact shape.skips.exists_then_iff hx hm _ Prod.mk

end

end FleetPlan.Json
