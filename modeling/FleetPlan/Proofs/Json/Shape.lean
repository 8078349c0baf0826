/-
Values survive being written and read by their shapes.

Two conditions carry the round trip.  `Shape.Lawful` is about the shape: its fields
have different names, a record is the same as its parts, and a field that is not
written is read as the value that was not written.  `Shape.Valid` is about the value:
payloads are well formed, and nothing that stands where null may stand is written as
null.  A valid value of a lawful shape is read back from any layout.
-/
import FleetPlan.Json.Shape
import FleetPlan.Proofs.Dict
import FleetPlan.Proofs.Json.Container
import FleetPlan.Proofs.Json.Scan

namespace FleetPlan.Json

/-- The document is written as null. -/
def Document.SpellsNull : Document → Prop
  | null => True
  | verbatim t => t = "null"
  | _ => False

/-! ### The conditions -/

mutual

/-- A value that its written form determines. -/
def Shape.Valid : {α : Type} → Shape α → α → Prop
  | _, .text, _ => True
  | _, .integer _, _ => True
  | _, .flag, _ => True
  | _, .payload, p => p.WellFormed
  | _, .choice _ _, _ => True
  | _, .list item, xs => ∀ x ∈ xs, item.Valid x
  | _, .dict item, d => ∀ e ∈ d.entries, item.Valid e.2
  | _, .nullable inner, x => ∀ a ∈ x, inner.Valid a ∧ ¬(inner.write a).SpellsNull
  | _, .record _ _ fields _ parts, a => fields.Valid (parts a)

def Fields.Valid : {β π : Type} → Fields β π → β → Prop
  | _, _, .done, _ => True
  | _, _, .field _ _ shape rest, (a, b) => shape.Valid a ∧ rest.Valid b

end

/-- Leaving a value out says that value. -/
def Presence.Lawful {α : Type} (presence : Presence α) : Prop :=
  ∀ a, presence.hides a = true → presence.inObject = some a

mutual

/-- A shape that reads what it writes, as far as the values are valid. -/
def Shape.Lawful : {α : Type} → Shape α → Prop
  | _, .text => True
  | _, .integer _ => True
  | _, .flag => True
  | _, .payload => True
  | _, .choice options name => ∀ a, options.find? (name · = name a) = some a
  | _, .list item => item.Lawful
  | _, .dict item => item.Lawful
  | _, .nullable inner => inner.Lawful
  | _, .record _ _ fields make parts =>
    (∀ a, make (parts a) = a) ∧ (∀ b, parts (make b) = b) ∧ fields.names.Nodup ∧ fields.Lawful

def Fields.Lawful : {β π : Type} → Fields β π → Prop
  | _, _, .done => True
  | _, _, .field _ presence shape rest =>
    (presence.Lawful ∧ ∀ a, presence.inObject = some a → shape.Valid a) ∧ shape.Lawful ∧ rest.Lawful

end

/-! ### Scalars -/

section

variable {L : Layout} {level : Nat}

theorem spelled_of_cons {α : Type} {read : Reader α} {a : α} {w t : Octets} {c : UInt8}
    (hw : w = c :: t) (hspace : Ascii.isSpace c = false) (hclose : c ≠ Ascii.closeBracket)
    (htaken : ∀ s r, Delimited r → skipSpace s = c :: (t ++ r) → taken? (read s) = some (a, r)) :
    Spelled read a w := by
  refine ⟨⟨c, t, hw, hspace, hclose⟩, fun ws r hws hr => htaken _ r hr ?_⟩
  rw [hw, List.cons_append]
  exact skipSpace_blank_cons hws hspace _

theorem taken?_readString_of_text {t : String} {s r : Octets}
    (hskip : skipSpace s = Ascii.quote :: (textTail t ++ r)) :
    taken? (readString s) = some (t, r) := by
  unfold readString
  rw [withNext_eq hskip, if_pos rfl, taken?_map_after]
  exact taken?_readText t r

theorem spelled_text (s : String) : Spelled readString s ((Document.text s).lay L level) := by
  rw [Document.lay]
  exact spelled_of_cons (octets_writeText s) (by decide) (by decide) fun _ _ _ hskip =>
    taken?_readString_of_text hskip

theorem spelled_integer {range : IntRange} (i : IntIn range) :
    Spelled (readInteger range) i ((Document.integer i.val).lay L level) := by
  obtain ⟨c, t, hw, hc⟩ := exists_intOctets_eq_cons i.val
  have hlay : (Document.integer i.val).lay L level = c :: t := by
    rw [Document.lay, ← hw]
    exact octets_toString i.val
  have hnumber : (c = Ascii.minus || Ascii.isDigit c) = true := by simpa using hc
  obtain ⟨hspace, hclose⟩ := not_isSpace_of_isDigit hc
  refine spelled_of_cons hlay hspace hclose ?_
  intro s r hr hskip
  have hread := taken?_readNumber i.inRange hr.endsNumeral
  rw [hw, List.cons_append] at hread
  obtain ⟨hlt, hread⟩ := taken?_eq_some_iff.mp hread
  unfold readInteger
  rw [withNext_eq hskip, if_pos hnumber, hread]
  dsimp only
  rw [dif_pos i.inRange]
  rfl

theorem spelled_flag (b : Bool) : Spelled readFlag b ((Document.boolean b).lay L level) := by
  rw [Document.lay]
  cases b with
  | true =>
    refine spelled_of_cons (c := Ascii.lowerT) (t := trueTail) rfl (by decide) (by decide) ?_
    intro s r _ hskip
    unfold readFlag
    rw [withNext_eq hskip, if_pos rfl, taken?_map_map_weaken, taken?_dropWord]
    rfl
  | false =>
    refine spelled_of_cons (c := Ascii.lowerF) (t := falseTail) rfl (by decide) (by decide) ?_
    intro s r _ hskip
    unfold readFlag
    rw [withNext_eq hskip, if_neg (by decide), if_pos rfl, taken?_map_map_weaken, taken?_dropWord]
    rfl

theorem spelled_choice {α : Type} {options : List α} {name : α → String} {a : α}
    (h : options.find? (name · = name a) = some a) :
    Spelled (readChoice options name) a ((Document.text (name a)).lay L level) := by
  rw [Document.lay]
  refine spelled_of_cons (octets_writeText (name a)) (by decide) (by decide) ?_
  intro s r _ hskip
  obtain ⟨hlt, hread⟩ := taken?_eq_some_iff.mp (taken?_readString_of_text hskip)
  unfold readChoice readChosen
  rw [withNext_eq hskip, if_pos rfl, hread]
  simp only [bind, Except.bind, chosen, h]
  rfl

theorem spelled_payload {p : Payload} (h : p.WellFormed) :
    Spelled readPayload p ((Document.verbatim p.text).lay L level) := by
  rw [Document.lay]
  exact ⟨h.head, fun ws r hws hr => h.read hws hr⟩

end

/-! ### Null -/

/-- What is not written as null does not begin as null does. -/
theorem head_ne_null (L : Layout) (level : Nat) : {α : Type} → (shape : Shape α) → (a : α) →
    shape.Valid a → ¬(shape.write a).SpellsNull →
    ∀ t, (shape.write a).lay L level ≠ Ascii.lowerN :: t
  | _, .text, s, _, _ => by
    intro t h
    rw [Shape.write, Document.lay] at h
    have hhead := (octets_writeText s).symm.trans h
    exact absurd (List.cons.inj hhead).1 (by decide)
  | _, .integer range, i, _, _ => by
    intro t h
    rw [Shape.write, Document.lay] at h
    have hw := (octets_toString i.val).symm.trans h
    obtain ⟨c, r, hc, hdigit⟩ := exists_intOctets_eq_cons i.val
    obtain ⟨rfl, -⟩ := List.cons.inj (hc.symm.trans hw)
    exact absurd hdigit (by decide)
  | _, .flag, b, _, _ => by
    intro t h
    rw [Shape.write, Document.lay] at h
    cases b <;> exact absurd (List.cons.inj h).1 (by decide)
  | _, .payload, p, hvalid, hnull => by
    intro t h
    rw [Shape.write, Document.lay] at h
    rw [Shape.Valid] at hvalid
    exact hnull (hvalid.text_eq_null h)
  | _, .choice options name, a, _, _ => by
    intro t h
    rw [Shape.write, Document.lay] at h
    have hhead := (octets_writeText (name a)).symm.trans h
    exact absurd (List.cons.inj hhead).1 (by decide)
  | _, .list item, xs, _, _ => by
    intro t h
    rw [Shape.write, Document.lay, Layout.block] at h
    exact absurd (List.cons.inj h).1 (by decide)
  | _, .dict item, d, _, _ => by
    intro t h
    rw [Shape.write, Document.lay, Layout.block] at h
    exact absurd (List.cons.inj h).1 (by decide)
  | _, .nullable inner, none, _, hnull => absurd trivial hnull
  | _, .nullable inner, some a, hvalid, _ => by
    rw [Shape.Valid] at hvalid
    obtain ⟨ha, hinner⟩ := hvalid a rfl
    exact head_ne_null L level inner a ha hinner
  | _, .record name closed fields make parts, a, _, _ => by
    intro t h
    rw [Shape.write, Document.lay, Layout.block] at h
    exact absurd (List.cons.inj h).1 (by decide)

/-! ### Containers -/

section

variable {L : Layout} {level : Nat}

theorem spelled_block {α : Type} {read : Reader α} {a : α} {opener closer : UInt8}
    {ws : List Octets} (hspace : Ascii.isSpace opener = false)
    (hclose : opener ≠ Ascii.closeBracket)
    (htaken : ∀ s r, skipSpace s = opener ::
      (L.items (level + 1) true ws ++ (L.closing level ws ++ closer :: r)) →
        taken? (read s) = some (a, r)) :
    Spelled read a (L.block level opener closer ws) := by
  refine spelled_of_cons rfl hspace hclose fun s r _ hskip => htaken s r ?_
  rw [hskip]
  simp

/-- The members of a dictionary, put into another one one after another. -/
theorem gathers_insert {α : Type} {read : Reader α} {f : α → Octets} (d : Dict α)
    (es : List (String × α)) (h : ∀ e ∈ es, Spelled read e.2 (f e.2)) :
    Gathers L (fun d key s => taken? ((readMember read s).map (·.map (Dict.insert key · d)))) d
      (es.map fun e => (e.1, f e.2)) (es.foldl (fun d e => d.insert e.1 e.2) d) := by
  induction es generalizing d with
  | nil => exact .nil d
  | cons e es ih =>
    refine .cons (fun r hr => ?_) (ih _ fun e' he' => h e' (List.mem_cons_of_mem _ he'))
    rw [taken?_map_map, taken?_readMember (h e List.mem_cons_self) L.blank_gap hr]
    rfl

/-! ### Fields -/

/-- What a field's reader gathers is gathered beside the slot of a field with another name. -/
theorem gathers_beside {α β π : Type} {name : String} {presence : Presence α} {shape : Shape α}
    {rest : Fields β π} {slot : Option α} {slots slots' : π} {es : List (String × Octets)}
    (h : Gathers L (fun slots key s => (rest.assign slots key s).bind taken?) slots es slots')
    (hne : ∀ e ∈ es, e.1 ≠ name) :
    Gathers L (fun slots key s =>
        ((Fields.field name presence shape rest).assign slots key s).bind taken?)
      (slot, slots) es (slot, slots') := by
  induction h with
  | nil slots => exact .nil _
  | @cons slots₁ slots₂ slots₃ key w es hread _ ih =>
    refine .cons (fun r hr => ?_) (ih fun e he => hne e (List.mem_cons_of_mem _ he))
    have hkey : key ≠ name := hne _ List.mem_cons_self
    obtain ⟨result, hassign, htaken⟩ := Option.bind_eq_some_iff.mp (hread r hr)
    rw [Fields.assign, if_neg hkey, hassign]
    simp only [Option.map_some, Option.bind_some, taken?_map_map, htaken]

theorem taken?_completed {α β π : Type} {m n : Nat} {x : Except Fault (Parsed π m)} {slots : π}
    {r : Octets} {finish : π → Except Fault β} {b : β} {make : β → α} {h : m < n}
    (hx : taken? x = some (slots, r)) (hfinish : finish slots = .ok b) :
    taken? (do
      let p ← x
      let b ← finish p.value
      return (p.map fun _ => make b).after h : Except Fault (Parsed α n)) = some (make b, r) := by
  obtain ⟨hlt, rfl⟩ := taken?_eq_some_iff.mp hx
  simp only [bind, Except.bind, hfinish]
  rfl

/-- A record is read from the members that its fields gather. -/
theorem spelled_record {α β π : Type} {name : String} {closed : Bool} {fields : Fields β π}
    {make : β → α} {parts : α → β} {slots : π} {b : β} {es : List (String × Octets)}
    (hgathers : Gathers L (fun slots key s => (fields.assign slots key s).bind taken?) fields.blank
      es slots) (hcomplete : fields.complete slots = .ok b) :
    Spelled (Shape.record name closed fields make parts).read (make b)
      (L.block level Ascii.openBrace Ascii.closeBrace (es.map L.member)) := by
  refine spelled_block (by decide) (by decide) ?_
  intro s r hskip
  rw [Shape.read]
  dsimp only
  rw [withNext_eq hskip, if_pos rfl]
  refine taken?_completed (taken?_foldMembers (hgathers.mono ?_)
    (L.blank_closing level (es.map L.member)) true r) hcomplete
  intro slots key s e h
  obtain ⟨result, hassign, htaken⟩ := Option.bind_eq_some_iff.mp h
  simp only [hassign]
  exact htaken

theorem Fields.names_write {β π : Type} : (fields : Fields β π) → (b : β) →
    ∀ e ∈ fields.write b, e.1 ∈ fields.names
  | .done, _, e, he => by
    rw [Fields.write] at he
    exact absurd he List.not_mem_nil
  | .field name presence shape rest, (a, b), e, he => by
    rw [Fields.write] at he
    rw [Fields.names]
    split at he
    · exact List.mem_cons_of_mem _ (rest.names_write b e he)
    · rcases List.mem_cons.mp he with rfl | he
      · exact List.mem_cons_self
      · exact List.mem_cons_of_mem _ (rest.names_write b e he)

/-! ### One constructor after another -/

theorem spelled_list {α : Type} {item : Shape α} {xs : List α}
    (h : ∀ x ∈ xs, Spelled item.read x ((item.write x).lay L (level + 1))) :
    Spelled item.list.read xs ((item.list.write xs).lay L level) := by
  rw [Shape.write, Document.lay, Document.layItems_eq, List.map_map]
  refine spelled_block (by decide) (by decide) ?_
  intro s r hskip
  rw [Shape.read]
  dsimp only
  rw [withNext_eq hskip, if_pos rfl, taken?_map_after]
  exact taken?_listItems h (L.blank_closing level _) true r

theorem spelled_dict {α : Type} {item : Shape α} {d : Dict α}
    (h : ∀ e ∈ d.entries, Spelled item.read e.2 ((item.write e.2).lay L (level + 1))) :
    Spelled item.dict.read d ((item.dict.write d).lay L level) := by
  rw [Shape.write, Document.lay, Document.layMembers_eq, List.map_map]
  refine spelled_block (by decide) (by decide) ?_
  intro s r hskip
  have hgathers := gathers_insert (L := L) (f := fun a => (item.write a).lay L (level + 1)) .empty
    d.entries h
  rw [show d.entries.foldl (fun d e => d.insert e.1 e.2) .empty = Dict.ofList d.entries from rfl,
    Dict.ofList_entries] at hgathers
  have hfold := @taken?_foldMembers _ L (level + 1) _ _ _ _ hgathers _ (L.blank_closing level
    (d.entries.map fun e => L.member (e.1, (item.write e.2).lay L (level + 1)))) true r
  rw [List.map_map] at hfold
  rw [Shape.read]
  dsimp only
  rw [withNext_eq hskip, if_pos rfl, taken?_map_after]
  exact hfold

theorem spelled_none {α : Type} {inner : Shape α} :
    Spelled inner.nullable.read none ((inner.nullable.write none).lay L level) := by
  rw [Shape.write]
  refine spelled_of_cons (c := Ascii.lowerN) (t := nullTail) ?_ (by decide) (by decide) ?_
  · rw [Document.lay]
    rfl
  · intro s r _ hskip
    rw [Shape.read]
    dsimp only
    rw [withNext_eq hskip, if_pos rfl, taken?_map_map_weaken, taken?_dropWord]
    rfl

/-- What does not begin as null does is told from null. -/
theorem spelled_some {α : Type} {inner : Shape α} {a : α}
    (h : Spelled inner.read a ((inner.write a).lay L level))
    (hnull : ∀ t, (inner.write a).lay L level ≠ Ascii.lowerN :: t) :
    Spelled inner.nullable.read (some a) ((inner.nullable.write (some a)).lay L level) := by
  rw [Shape.write]
  refine ⟨h.head, ?_⟩
  intro ws r hws hr
  obtain ⟨c, t, hw, hspace, -⟩ := h.head
  have hne : c ≠ Ascii.lowerN := by
    rintro rfl
    exact hnull t hw
  have hskip : skipSpace (ws ++ ((inner.write a).lay L level ++ r)) = c :: (t ++ r) := by
    rw [hw, List.cons_append]
    exact skipSpace_blank_cons hws hspace _
  rw [Shape.read]
  dsimp only
  rw [withNext_eq hskip, if_neg hne, taken?_map_map, h.taken ws r hws hr]
  rfl

end

mutual

/-- **A valid value of a lawful shape is read back from any layout.** -/
theorem Shape.spelled (L : Layout) (level : Nat) : {α : Type} → (shape : Shape α) →
    shape.Lawful → (a : α) → shape.Valid a →
      Spelled shape.read a ((shape.write a).lay L level)
  | _, .text, _, s, _ => by
    rw [Shape.write]
    exact spelled_text s
  | _, .integer range, _, i, _ => by
    rw [Shape.write]
    exact spelled_integer i
  | _, .flag, _, b, _ => by
    rw [Shape.write]
    exact spelled_flag b
  | _, .payload, _, p, hvalid => by
    rw [Shape.Valid] at hvalid
    rw [Shape.write]
    exact spelled_payload hvalid
  | _, .choice options name, hlawful, a, _ => by
    rw [Shape.Lawful] at hlawful
    rw [Shape.write]
    exact spelled_choice (hlawful a)
  | _, .list item, hlawful, xs, hvalid => by
    rw [Shape.Lawful] at hlawful
    rw [Shape.Valid] at hvalid
    exact spelled_list fun x hx => Shape.spelled L (level + 1) item hlawful x (hvalid x hx)
  | _, .dict item, hlawful, d, hvalid => by
    rw [Shape.Lawful] at hlawful
    rw [Shape.Valid] at hvalid
    exact spelled_dict fun e he => Shape.spelled L (level + 1) item hlawful e.2 (hvalid e he)
  | _, .nullable inner, _, none, _ => spelled_none
  | _, .nullable inner, hlawful, some a, hvalid => by
    rw [Shape.Lawful] at hlawful
    rw [Shape.Valid] at hvalid
    obtain ⟨ha, hnull⟩ := hvalid a rfl
    exact spelled_some (Shape.spelled L level inner hlawful a ha)
      (head_ne_null L level inner a ha hnull)
  | _, .record name closed fields make parts, hlawful, a, hvalid => by
    rw [Shape.Lawful] at hlawful
    rw [Shape.Valid] at hvalid
    obtain ⟨hmake, -, hnames, hfields⟩ := hlawful
    obtain ⟨slots, hgathers, hcomplete⟩ :=
      Fields.gathers L (level + 1) fields hfields hnames (parts a) hvalid
    have hrecord : Spelled (Shape.record name closed fields make parts).read _
      (L.block level _ _ _) := spelled_record hgathers hcomplete
    rw [hmake, List.map_map] at hrecord
    rw [Shape.write, Document.lay, Document.layMembers_eq]
    exact hrecord

theorem Fields.gathers (L : Layout) (level : Nat) : {β π : Type} → (fields : Fields β π) →
    fields.Lawful → fields.names.Nodup → (b : β) → fields.Valid b →
      ∃ slots, Gathers L (fun slots key s => (fields.assign slots key s).bind taken?) fields.blank
        ((fields.write b).map fun e => (e.1, e.2.lay L level)) slots ∧
          fields.complete slots = .ok b
  | _, _, .done, _, _, (), _ => by
    rw [Fields.write, Fields.blank]
    exact ⟨(), .nil (), rfl⟩
  | _, _, .field name presence shape rest, hlawful, hnames, (a, b), hvalid => by
    rw [Fields.Lawful] at hlawful
    rw [Fields.Valid] at hvalid
    rw [Fields.names] at hnames
    obtain ⟨⟨hpresence, -⟩, hshape, hrest⟩ := hlawful
    obtain ⟨hname, hnames⟩ := List.nodup_cons.mp hnames
    obtain ⟨slots, hgathers, hcomplete⟩ := Fields.gathers L level rest hrest hnames b hvalid.2
    have hne : ∀ e ∈ (rest.write b).map fun e => (e.1, e.2.lay L level), e.1 ≠ name := by
      intro e he hkey
      obtain ⟨e', he', rfl⟩ := List.mem_map.mp he
      exact hname (hkey ▸ rest.names_write b e' he')
    rw [Fields.write, Fields.blank]
    by_cases hhides : presence.hides a = true
    · refine ⟨(none, slots), ?_, ?_⟩
      · rw [if_pos hhides]
        exact gathers_beside hgathers hne
      · rw [Fields.complete, Option.none_or, hpresence a hhides]
        simp only [bind, Except.bind, hcomplete]
        rfl
    · refine ⟨(some a, slots), ?_, ?_⟩
      · rw [if_neg hhides, List.map_cons]
        refine .cons (fun r hr => ?_) (gathers_beside hgathers hne)
        have hspelled := Shape.spelled L level shape hshape a hvalid.1
        rw [Fields.assign, if_pos rfl, Option.bind_some, if_neg (by simp), taken?_map_map,
          taken?_readMember hspelled L.blank_gap hr]
        rfl
      · rw [Fields.complete, Option.some_or]
        simp only [bind, Except.bind, hcomplete]
        rfl

end

/-! ### Payloads from texts -/

namespace Payload

variable {text : String} {p : Payload}

/-- What was made from a text was read from it, and nothing but space is left. -/
theorem exists_rest_of_ofText (h : ofText text = .ok p) :
    ∃ r, taken? (readPayload (Text.octets text)) = some (p, r) ∧ skipSpace r = [] := by
  unfold ofText Shape.readAll at h
  rw [Shape.read] at h
  cases hread : readPayload (Text.octets text) with
  | error f => simp [hread, bind, Except.bind] at h
  | ok q =>
    rw [hread] at h
    simp only [bind, Except.bind, readEnd] at h
    split at h
    · rename_i hend
      split at hend
      · cases hend
      · cases h
    · rename_i hend
      split at hend
      · rename_i hempty
        cases h
        exact ⟨q.rest, rfl, List.isEmpty_iff.mp hempty⟩
      · cases hend

/-- What was made from a text is a payload that can be read back from a document. -/
theorem wellFormed_of_ofText (h : ofText text = .ok p) : p.WellFormed := by
  obtain ⟨r, hread, -⟩ := exists_rest_of_ofText h
  exact wellFormed_of_read hread

end Payload

end FleetPlan.Json
