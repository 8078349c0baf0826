/-
A text that is kept as written comes from the source and goes into what is written.

`Document.Holds` says that a document has a text in it that is to be written as it is.
Such a text stands in the written octets wherever the document ends up, because a layout
puts space between the parts of a document and leaves the parts alone.

It also stands in the octets that the document's value was read from.  Only the values that
stand for fields left out come from elsewhere, and `DefaultsSilent` says that they keep no
text.
-/
import FleetPlan.Proofs.Json.Source

namespace FleetPlan.Json

/-! ### Texts in documents -/

theorem Layout.infix_items {L : Layout} {level : Nat} {first : Bool} {w : Octets} {ws : List Octets}
    (hw : w ∈ ws) : w <:+: L.items level first ws := by
  induction ws generalizing first with
  | nil => exact absurd hw List.not_mem_nil
  | cons v ws ih =>
    rw [Layout.items, ← List.append_assoc]
    rcases List.mem_cons.mp hw with rfl | hw
    · exact List.infix_append' _ _ _
    · exact ((ih hw).trans (List.suffix_append v _).isInfix).trans (List.suffix_append _ _).isInfix

/-- What is put into a container stands in it. -/
theorem Layout.infix_block {L : Layout} {level : Nat} {opener closer : UInt8} {w : Octets}
    {ws : List Octets} (hw : w ∈ ws) : w <:+: L.block level opener closer ws :=
  ((Layout.infix_items hw).trans (List.prefix_append _ _).isInfix).trans
    (List.suffix_cons _ _).isInfix

namespace Document

/-- Somewhere in the document the text is to be written as it is. -/
inductive Holds (t : String) : Document → Prop
  | verbatim : Holds t (.verbatim t)
  | item {ds : List Document} {d : Document} (hd : d ∈ ds) (h : Holds t d) : Holds t (.list ds)
  | member {es : List (String × Document)} (e : String × Document) (he : e ∈ es)
      (h : Holds t e.2) : Holds t (.object es)

/-- A text that is to be written as it is stands in the written document. -/
theorem Holds.infix_lay {t : String} {d : Document} (h : d.Holds t) (L : Layout) (level : Nat) :
    Text.octets t <:+: d.lay L level := by
  induction h generalizing level with
  | verbatim => exact List.infix_refl _
  | item hd _ ih =>
    rw [lay, layItems_eq]
    exact (ih (level + 1)).trans (Layout.infix_block (List.mem_map_of_mem hd))
  | member e he _ ih =>
    have hmember : e.2.lay L (level + 1) <:+: L.member (e.1, e.2.lay L (level + 1)) :=
      ((List.suffix_append _ _).trans (List.suffix_cons _ _)).isInfix.trans
        (List.suffix_append _ _).isInfix
    rw [lay, layMembers_eq]
    exact ((ih (level + 1)).trans hmember).trans
      (Layout.infix_block (List.mem_map.mpr ⟨e, he, rfl⟩))

/-- Every text that is to be written as it is stands in the source. -/
def StandsIn (source : Octets) (d : Document) : Prop := ∀ t, d.Holds t → Text.octets t <:+: source

/-- No text is to be written as it is. -/
def Silent (d : Document) : Prop := ∀ t, ¬d.Holds t

section

variable {source : Octets}

theorem Silent.standsIn {d : Document} (h : d.Silent) : d.StandsIn source :=
  fun t ht => absurd ht (h t)

theorem silent_null : null.Silent := fun _ h => nomatch h

theorem silent_boolean (b : Bool) : (boolean b).Silent := fun _ h => nomatch h

theorem silent_integer (i : Int) : (integer i).Silent := fun _ h => nomatch h

theorem silent_text (s : String) : (text s).Silent := fun _ h => nomatch h

theorem silent_nil : (list []).Silent
  | _, .item hd _ => absurd hd List.not_mem_nil

theorem silent_bare : (object []).Silent
  | _, .member _ he _ => absurd he List.not_mem_nil

theorem standsIn_verbatim {t : String} (h : Text.octets t <:+: source) :
    (verbatim t).StandsIn source
  | _, .verbatim => h

theorem standsIn_list {ds : List Document} (h : ∀ d ∈ ds, d.StandsIn source) :
    (list ds).StandsIn source
  | t, .item hd ht => h _ hd t ht

theorem standsIn_object {es : List (String × Document)} (h : ∀ e ∈ es, e.2.StandsIn source) :
    (object es).StandsIn source
  | t, .member e he ht => h e he t ht

end

end Document

/-! ### Texts of values -/

/-- What stands for a field that was left out keeps no text. -/
def Presence.DefaultSilent {α : Type} (presence : Presence α) (shape : Shape α) : Prop :=
  ∀ a, presence.inObject = some a → (shape.write a).Silent

mutual

/-- The values that stand for fields left out keep no texts. -/
def Shape.DefaultsSilent : {α : Type} → Shape α → Prop
  | _, .text => True
  | _, .integer _ => True
  | _, .flag => True
  | _, .payload => True
  | _, .choice _ _ => True
  | _, .list item => item.DefaultsSilent
  | _, .dict item => item.DefaultsSilent
  | _, .nullable inner => inner.DefaultsSilent
  | _, .record _ _ fields _ _ => fields.DefaultsSilent

def Fields.DefaultsSilent : {β π : Type} → Fields β π → Prop
  | _, _, .done => True
  | _, _, .field _ presence shape rest =>
    presence.DefaultSilent shape ∧ shape.DefaultsSilent ∧ rest.DefaultsSilent

end

mutual

/-- **The texts that a value keeps come from where it was read.** -/
theorem Shape.standsIn_of_readFrom {source : Octets} : {α : Type} → (shape : Shape α) →
    shape.Lawful → shape.DefaultsSilent → {a : α} → shape.ReadFrom source a →
      (shape.write a).StandsIn source
  | _, .text, _, _, a, _ => (Document.silent_text a).standsIn
  | _, .integer _, _, _, a, _ => (Document.silent_integer a.val).standsIn
  | _, .flag, _, _, a, _ => (Document.silent_boolean a).standsIn
  | _, .choice _ name, _, _, a, _ => (Document.silent_text (name a)).standsIn
  | _, .payload, _, _, _, h => Document.standsIn_verbatim h.2
  | _, .list item, hlawful, hsilent, xs, h => by
    rw [Shape.Lawful] at hlawful
    rw [Shape.DefaultsSilent] at hsilent
    rw [Shape.write]
    refine Document.standsIn_list fun d hd => ?_
    obtain ⟨x, hx, rfl⟩ := List.mem_map.mp hd
    exact item.standsIn_of_readFrom hlawful hsilent (h x hx)
  | _, .dict item, hlawful, hsilent, d, h => by
    rw [Shape.Lawful] at hlawful
    rw [Shape.DefaultsSilent] at hsilent
    rw [Shape.write]
    refine Document.standsIn_object fun e he => ?_
    obtain ⟨entry, hentry, rfl⟩ := List.mem_map.mp he
    exact item.standsIn_of_readFrom hlawful hsilent (h entry hentry)
  | _, .nullable inner, _, _, none, _ => Document.silent_null.standsIn
  | _, .nullable inner, hlawful, hsilent, some a, h => by
    rw [Shape.Lawful] at hlawful
    rw [Shape.DefaultsSilent] at hsilent
    exact inner.standsIn_of_readFrom hlawful hsilent (h a rfl).1
  | _, .record name closed fields make parts, hlawful, hsilent, a, h => by
    rw [Shape.Lawful] at hlawful
    obtain ⟨-, hparts, -, hfields⟩ := hlawful
    rw [Shape.DefaultsSilent] at hsilent
    obtain ⟨b, rfl, hb⟩ := h
    rw [Shape.write, hparts]
    exact Document.standsIn_object (fields.standsIn_of_readFrom hfields hsilent hb)

theorem Fields.standsIn_of_readFrom {source : Octets} : {β π : Type} → (fields : Fields β π) →
    fields.Lawful → fields.DefaultsSilent → {b : β} → fields.ReadFrom source b →
      ∀ e ∈ fields.write b, e.2.StandsIn source
  | _, _, .done, _, _, _, _, e, he => by
    rw [Fields.write] at he
    exact absurd he List.not_mem_nil
  | _, _, .field name presence shape rest, hlawful, hsilent, (a, b), h, e, he => by
    rw [Fields.Lawful] at hlawful
    rw [Fields.DefaultsSilent] at hsilent
    obtain ⟨-, hshape, hrest⟩ := hlawful
    obtain ⟨hdefault, hsilent, hsilents⟩ := hsilent
    obtain ⟨ha, hb⟩ := h
    have htail := fun e he => rest.standsIn_of_readFrom hrest hsilents hb e he
    rw [Fields.write] at he
    split at he
    · exact htail e he
    · rcases List.mem_cons.mp he with rfl | he
      · exact ha.elim (fun habsent => (hdefault a habsent).standsIn)
          (shape.standsIn_of_readFrom hshape hsilent)
      · exact htail e he

end

end FleetPlan.Json
