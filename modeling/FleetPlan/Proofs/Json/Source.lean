/-
What is read comes from the source.

A reader leaves an end of what it was given, so the next reader still reads the same
source.  `Within` says this of a result, together with a property of the value, and each
reader and each loop of readers hands it on.

`Shape.ReadFrom` is what can be said of a value that a shape reads, for all of the value:
payloads are well formed and are stretches of the source, nothing that stands where null
may stand is null, and a field that was not read has the value that stands for it.
-/
import FleetPlan.Proofs.Json.Shape

namespace FleetPlan.Json

/-! ### Readers of one source -/

theorem suffix_of_skipSpace {s r : Octets} {c : UInt8} (h : skipSpace s = c :: r) : c :: r <:+ s :=
  h ▸ List.dropWhile_suffix _

theorem suffix_tail {source r : Octets} {c : UInt8} (h : c :: r <:+ source) : r <:+ source :=
  (List.suffix_cons c r).trans h

section

variable {source s : Octets} {α β σ : Type} {m n : Nat} {P : α → Prop} {Q : β → Prop}

/-- What was read has the property, and an end of the source is left. -/
def Within (source : Octets) (P : α → Prop) (x : Except Fault (Parsed α n)) : Prop :=
  ∀ p, x = .ok p → p.rest <:+ source ∧ P p.value

/-- An end of the source is left. -/
abbrev Stays (source : Octets) (x : Except Fault (Parsed α n)) : Prop :=
  Within source (fun _ => True) x

namespace Within

variable {x : Except Fault (Parsed α m)}

theorem error {f : Fault} : Within source P (.error f : Except Fault (Parsed α n)) :=
  fun _ h => nomatch h

theorem ok {p : Parsed α n} (hrest : p.rest <:+ source) (hvalue : P p.value) :
    Within source P (.ok p)
  | _, rfl => ⟨hrest, hvalue⟩

theorem map {g : Parsed α m → Parsed β n} (h : Within source P x)
    (hrest : ∀ p, (g p).rest = p.rest) (hvalue : ∀ p, P p.value → Q (g p).value) :
    Within source Q (x.map g) := by
  cases x with
  | error f => exact error
  | ok p =>
    obtain ⟨hsource, hp⟩ := h p rfl
    exact ok (hrest p ▸ hsource) (hvalue p hp)

theorem stays_map {g : Parsed α m → Parsed β n} (h : Within source P x)
    (hrest : ∀ p, (g p).rest = p.rest) : Stays source (x.map g) :=
  h.map hrest fun _ _ => trivial

theorem bind {γ : Type} {y : Except Fault γ} {f : γ → Except Fault (Parsed α n)}
    (h : ∀ c, y = .ok c → Within source P (f c)) : Within source P (y >>= f) := by
  cases y with
  | error f => exact error
  | ok c => exact h c rfl

/-- One reader after another. -/
theorem andThen {f : Parsed α m → Except Fault (Parsed β n)} (h : Within source P x)
    (hf : ∀ p, p.rest <:+ source → P p.value → Within source Q (f p)) :
    Within source Q (x >>= f) :=
  .bind fun p hp => hf p (h p hp).1 (h p hp).2

theorem withNext (hs : s <:+ source) {atEnd : Fault}
    {next : (c : UInt8) → (r : Octets) → r.length < s.length → Except Fault (Parsed α n)}
    (h : ∀ c r hr, c :: r <:+ source → Within source P (next c r hr)) :
    Within source P (withNext s atEnd next) := by
  intro p hp
  obtain ⟨c, r, hr, hskip, hnext⟩ := exists_of_withNext_ok hp
  exact h c r hr ((suffix_of_skipSpace hskip).trans hs) p hnext

/-- A local reader leaves an end of what it was given. -/
theorem of_local {bound : Octets → Nat} {read : (s : Octets) → Except Fault (Parsed α (bound s))}
    (hlocal : Local fun s => taken? (read s)) (hs : s <:+ source) :
    Stays source (read s) := by
  intro p hp
  have htaken : taken? (read s) = some (p.value, p.rest) := by rw [hp]; rfl
  obtain ⟨w, hw, -⟩ := hlocal s p.value p.rest htaken
  exact ⟨List.IsSuffix.trans ⟨w, hw.symm⟩ hs, trivial⟩

end Within

/-! ### Scalars -/

theorem stays_readCodeEscape (hs : s <:+ source) : Stays source (readCodeEscape s) := by
  unfold readCodeEscape
  refine (Within.of_local local_readHex4 hs).andThen fun ⟨n, r, hlt⟩ hr _ => ?_
  dsimp only at hr ⊢
  split
  · exact .error
  · split
    · exact .ok hr trivial
    · cases r with
      | nil => exact .error
      | cons c r =>
        dsimp only
        split
        · exact .error
        · cases r with
          | nil => exact .error
          | cons d r =>
            dsimp only
            split
            · exact .error
            · have htail := suffix_tail (suffix_tail hr)
              refine (Within.of_local local_readHex4 htail).andThen fun ⟨n', r', hlt'⟩ hr' _ => ?_
              dsimp only at hr' ⊢
              split
              · exact .ok hr' trivial
              · exact .error

theorem stays_readEscape (hs : s <:+ source) : Stays source (readEscape s) := by
  unfold readEscape
  split
  · exact .error
  · rename_i c r
    have hr : r <:+ source := suffix_tail hs
    split
    · exact .ok hr trivial
    · split
      · exact (stays_readCodeEscape hr).stays_map fun _ => rfl
      · exact .error

theorem stays_literalOctets : {s : Octets} → s <:+ source → Stays source (literalOctets s)
  | [], _ => by
    rw [literalOctets]
    exact .error
  | c :: r, hs => by
    have hr : r <:+ source := suffix_tail hs
    rw [literalOctets]
    split
    · exact .ok hr trivial
    · split
      · cases hescape : readEscape r with
        | error f => exact .error
        | ok p =>
          obtain ⟨hp, -⟩ := stays_readEscape hr p hescape
          have hlt := p.rest_lt
          exact (stays_literalOctets hp).stays_map fun _ => rfl
      · split
        · exact .error
        · exact (stays_literalOctets hr).stays_map fun _ => rfl
termination_by s => s.length

theorem stays_readText (hs : s <:+ source) : Stays source (readText s) := by
  unfold readText
  refine (stays_literalOctets hs).andThen fun p hr _ => ?_
  split
  · exact .ok hr trivial
  · exact .error

theorem stays_readNumber (hs : s <:+ source) : Stays source (readNumber s) := by
  unfold readNumber
  exact (Within.of_local Numeral.local_read hs).andThen fun _ hr _ =>
    .bind fun _ _ => .ok hr trivial

theorem stays_readString (hs : s <:+ source) : Stays source (readString s) := by
  refine .withNext hs fun c r hlt hr => ?_
  split
  · exact (stays_readText (suffix_tail hr)).stays_map fun _ => rfl
  · exact .error

theorem stays_readInteger {range : IntRange} (hs : s <:+ source) :
    Stays source (readInteger range s) := by
  refine .withNext hs fun c r hlt hr => ?_
  split
  · have hnumber := stays_readNumber hr
    split
    · exact .error
    · rename_i hread
      split
      · exact .ok (hnumber _ hread).1 trivial
      · exact .error
    · exact .error
  · exact .error

theorem within_dropWord {word : Octets} {b : β} (hb : Q b) {h : s.length + 1 ≤ n}
    (hs : s <:+ source) :
    Within source Q ((dropWord word s).map fun p => (p.map fun _ => b).weaken h) :=
  (Within.of_local (local_dropWord word) hs).map (fun _ => rfl) fun _ _ => hb

theorem stays_readFlag (hs : s <:+ source) : Stays source (readFlag s) := by
  refine .withNext hs fun c r hlt hr => ?_
  have htail := suffix_tail hr
  split
  · exact within_dropWord trivial htail
  · split
    · exact within_dropWord trivial htail
    · exact .error

theorem stays_readUnit (hs : s <:+ source) : Stays source (readUnit s) := by
  refine .withNext hs fun c r hlt hr => ?_
  split
  · exact (Within.of_local (local_dropWord _) (suffix_tail hr)).stays_map fun _ => rfl
  · exact .error

theorem stays_readColon (hs : s <:+ source) : Stays source (readColon s) := by
  refine .withNext hs fun c r hlt hr => ?_
  split
  · exact .ok (suffix_tail hr) trivial
  · exact .error

theorem within_readMember {read : Reader α} (hread : ∀ t, t <:+ source → Within source P (read t))
    (hs : s <:+ source) : Within source P (readMember read s) := by
  unfold readMember
  split
  · exact .error
  · rename_i r hlt hc
    exact (hread r (stays_readColon hs _ hc).1).map (fun _ => rfl) fun _ h => h

theorem stays_readChosen {options : List α} {name : α → String} {readName : Reader String}
    (h : Stays source (readName s)) : Stays source (readChosen options name readName s) :=
  h.andThen fun _ hr _ => .bind fun _ _ => .ok hr trivial

theorem stays_readChoiceName (hs : s <:+ source) : Stays source (readChoiceName s) := by
  refine .withNext hs fun c r hlt hr => ?_
  split
  · exact (stays_readText (suffix_tail hr)).stays_map fun _ => rfl
  · split <;> exact .error

theorem stays_closeChoice (hs : s <:+ source) : Stays source (closeChoice s) := by
  refine .withNext hs fun c r hlt hr => ?_
  split
  · exact .ok (suffix_tail hr) trivial
  · exact .error

theorem stays_readChosenMember {options : List α} {name : α → String} (hs : s <:+ source) :
    Stays source (readChosenMember options name s) := by
  refine (stays_readChosen (stays_readChoiceName hs)).andThen fun p hp _ => ?_
  refine (within_readMember (fun _ => stays_readUnit) hp).andThen fun q hq _ => ?_
  exact (stays_closeChoice hq).andThen fun e he _ => .ok he trivial

theorem stays_readChoice {options : List α} {name : α → String} (hs : s <:+ source) :
    Stays source (readChoice options name s) := by
  refine .withNext hs fun c r hlt hr => ?_
  split
  · exact stays_readChosen (stays_readString hs)
  split
  · exact (stays_readChosenMember (suffix_tail hr)).stays_map fun _ => rfl
  · exact .error

/-! ### Containers -/

theorem suffix_of_nextItem {first : Bool} (hs : s <:+ source) {p : Parsed Unit (s.length + 1)}
    (h : nextItem first s = .ok (some p)) : p.rest <:+ source := by
  obtain ⟨c, r, hlt, hskip, h⟩ := exists_of_withNext_ok h
  have hr := (suffix_of_skipSpace hskip).trans hs
  split at h
  · simp at h
  · split at h
    · obtain rfl := Option.some.inj (Except.ok.inj h)
      exact hr
    · split at h
      · obtain ⟨d, r', hlt', hskip', h⟩ := exists_of_withNext_ok h
        split at h
        · simp at h
        · obtain rfl := Option.some.inj (Except.ok.inj h)
          exact (suffix_of_skipSpace hskip').trans (suffix_tail hr)
      · simp at h

theorem stays_closeList (hs : s <:+ source) : Stays source (closeList s) := by
  refine .withNext hs fun c r hlt hr => ?_
  split
  · exact .ok (suffix_tail hr) trivial
  · split
    · split <;> exact .error
    · exact .error

/-- Items that have a property are read as a list of such items. -/
theorem within_listItems {item : Reader α} (hitem : ∀ t, t <:+ source → Within source P (item t)) :
    {first : Bool} → {s : Octets} → s <:+ source →
      Within source (fun xs => ∀ x ∈ xs, P x) (listItems item first s)
  | first, s, hs => by
    rw [listItems]
    split
    · exact .error
    · exact (stays_closeList hs).map (fun _ => rfl) fun _ _ => List.forall_mem_nil _
    · rename_i u r hlt hnext
      have hr : r <:+ source := suffix_of_nextItem hs hnext
      split
      · exact .error
      · rename_i a r' hlt' hread
        obtain ⟨hr', ha⟩ := hitem r hr _ hread
        refine (within_listItems hitem hr').map (fun _ => rfl) fun p hp => ?_
        exact List.forall_mem_cons.mpr ⟨ha, hp⟩
termination_by _ s => s.length

theorem suffix_of_nextName {first : Bool} (hs : s <:+ source) {p : Parsed String s.length}
    (h : nextName first s = .ok (some p)) : p.rest <:+ source := by
  have htext {t : Octets} (ht : t <:+ source) {hle : t.length ≤ s.length}
      (h : ((readText t).map fun q => some (q.weaken hle)) = .ok (some p)) : p.rest <:+ source := by
    cases hread : readText t with
    | error f => simp [hread, Except.map] at h
    | ok q =>
      rw [hread] at h
      obtain rfl := Option.some.inj (Except.ok.inj h)
      exact (stays_readText ht q hread).1
  obtain ⟨c, r, hlt, hskip, h⟩ := exists_of_withNext_ok h
  have hr := suffix_tail ((suffix_of_skipSpace hskip).trans hs)
  split at h
  · simp at h
  · split at h
    · split at h
      · exact htext hr h
      · simp at h
    · split at h
      · obtain ⟨d, r', hlt', hskip', h⟩ := exists_of_withNext_ok h
        split at h
        · exact htext (suffix_tail ((suffix_of_skipSpace hskip').trans hr)) h
        · split at h <;> simp at h
      · simp at h

theorem stays_closeObject (hs : s <:+ source) : Stays source (closeObject s) := by
  refine .withNext hs fun c r hlt hr => ?_
  split
  · exact .ok (suffix_tail hr) trivial
  · split <;> exact .error

/-- What every member keeps is kept by all of them. -/
theorem within_foldMembers {member : σ → String → Reader σ} {R : σ → Prop}
    (hmember : ∀ g name t, R g → t <:+ source → Within source R (member g name t)) :
    {first : Bool} → {g : σ} → R g → {s : Octets} → s <:+ source →
      Within source R (foldMembers member first g s)
  | first, g, hg, s, hs => by
    rw [foldMembers]
    split
    · exact .error
    · exact (stays_closeObject hs).map (fun _ => rfl) fun _ _ => hg
    · rename_i name r hlt hnext
      have hr : r <:+ source := suffix_of_nextName hs hnext
      split
      · exact .error
      · rename_i g' r' hlt' hread
        obtain ⟨hr', hg'⟩ := hmember g name r hg hr _ hread
        exact (within_foldMembers hmember hg' hr').map (fun _ => rfl) fun _ h => h
termination_by _ _ _ s => s.length

end

theorem within_readPayload {source s : Octets} (hs : s <:+ source) :
    Within source (fun p => p.WellFormed ∧ Text.octets p.text <:+: source) (readPayload s) := by
  intro p hp
  have htaken : taken? (readPayload s) = some (p.value, p.rest) := by rw [hp]; rfl
  obtain ⟨hstart, -⟩ := taken?_readPayload_iff.mp htaken
  have hsource : Text.octets p.value.text ++ p.rest <:+ source :=
    hstart ▸ (List.dropWhile_suffix _ : skipSpace s <:+ s).trans hs
  exact ⟨(List.suffix_append _ _).trans hsource, Payload.wellFormed_of_read htaken,
    (List.prefix_append _ _).isInfix.trans hsource.isInfix⟩

/-! ### Values -/

mutual

/-- What is true of a value that the shape reads from the source. -/
def Shape.ReadFrom (source : Octets) : {α : Type} → Shape α → α → Prop
  | _, .text, _ => True
  | _, .integer _, _ => True
  | _, .flag, _ => True
  | _, .payload, p => p.WellFormed ∧ Text.octets p.text <:+: source
  | _, .choice _ _, _ => True
  | _, .list item, xs => ∀ x ∈ xs, item.ReadFrom source x
  | _, .dict item, d => ∀ e ∈ d.entries, item.ReadFrom source e.2
  | _, .nullable inner, x => ∀ a ∈ x, inner.ReadFrom source a ∧ ¬(inner.write a).SpellsNull
  | _, .record _ _ fields make _, a => ∃ b, a = make b ∧ fields.ReadFrom source b

/-- The value of a field was read, or it is what stands for the field. -/
def Fields.ReadFrom (source : Octets) : {β π : Type} → Fields β π → β → Prop
  | _, _, .done, _ => True
  | _, _, .field _ presence shape rest, (a, b) =>
    (presence.inObject = some a ∨ shape.ReadFrom source a) ∧ rest.ReadFrom source b

end

/-- Every value gathered so far was read. -/
def Fields.Gathered (source : Octets) : {β π : Type} → Fields β π → π → Prop
  | _, _, .done, _ => True
  | _, _, .field _ _ shape rest, (slot, slots) =>
    (∀ a ∈ slot, shape.ReadFrom source a) ∧ rest.Gathered source slots

/-- What is read where no null stands is not written as null. -/
theorem not_spellsNull_of_read {s t : Octets} {c : UInt8} (hskip : skipSpace s = c :: t)
    (hc : c ≠ Ascii.lowerN) : {α : Type} → (shape : Shape α) → {a : α} → {r : Octets} →
      taken? (shape.read s) = some (a, r) → ¬(shape.write a).SpellsNull
  | _, .text, _, _, _ => id
  | _, .integer _, _, _, _ => id
  | _, .flag, _, _, _ => id
  | _, .choice _ _, _, _, _ => id
  | _, .list _, _, _, _ => id
  | _, .dict _, _, _, _ => id
  | _, .record _ _ _ _ _, _, _, _ => id
  | _, .payload, p, r, h => by
    intro hnull
    have htext : p.text = "null" := hnull
    obtain ⟨hs, -⟩ := taken?_readPayload_iff.mp h
    rw [hskip, htext] at hs
    exact hc (List.cons.inj hs).1
  | _, .nullable inner, a, r, h => by
    rw [Shape.read] at h
    dsimp only at h
    rw [withNext_eq hskip, if_neg hc, taken?_map_map_eq_some_iff] at h
    obtain ⟨x, hx, rfl⟩ := h
    exact not_spellsNull_of_read hskip hc inner hx

theorem Presence.inObject_of_inList {α : Type} {presence : Presence α} {a : α}
    (h : presence.inList = some a) : presence.inObject = some a := by
  cases presence with
  | required => exact absurd h (by simp [Presence.inList])
  | optional b => exact absurd h (by simp [Presence.inList])
  | defaulted b => exact h
  | omitted b isAbsent => exact h

section

variable {source : Octets}

theorem Fields.gathered_blank {β π : Type} : (fields : Fields β π) →
    fields.Gathered source fields.blank
  | .done => trivial
  | .field _ _ _ rest => ⟨fun _ h => absurd h (by simp), rest.gathered_blank⟩

/-- What was not gathered is what stands for the field. -/
theorem Fields.readFrom_complete {β π : Type} : (fields : Fields β π) → (slots : π) →
    fields.Gathered source slots → ∀ {b}, fields.complete slots = .ok b → fields.ReadFrom source b
  | .done, _, _, _, _ => trivial
  | .field name presence shape rest, (slot, slots), hgathered, (a, b), h => by
    rw [Fields.complete] at h
    cases hslot : slot.or presence.inObject with
    | none => simp [hslot, bind, Except.bind] at h
    | some a' =>
      cases hslots : rest.complete slots with
      | error f => simp [hslot, hslots, bind, Except.bind] at h
      | ok b' =>
        simp only [hslot, hslots, bind, Except.bind] at h
        obtain ⟨rfl, rfl⟩ := Prod.mk.inj (Except.ok.inj h)
        refine ⟨?_, rest.readFrom_complete slots hgathered.2 hslots⟩
        rcases Option.or_eq_some_iff.mp hslot with hread | ⟨-, habsent⟩
        · exact .inr (hgathered.1 _ hread)
        · exact .inl habsent

/-- What the shape reads of an end of the source comes from the source. -/
def Shape.ReadsWithin (source : Octets) {α : Type} (shape : Shape α) : Prop :=
  ∀ s, s <:+ source → Within source (shape.ReadFrom source) (shape.read s)

/-- A member's value is read into its slot, and what was gathered before stays. -/
def Fields.AssignsWithin (source : Octets) {β π : Type} (fields : Fields β π) : Prop :=
  ∀ (slots : π) (key : String) (s : Octets), fields.Gathered source slots → s <:+ source →
    ∀ result, fields.assign slots key s = some result →
      Within source (fields.Gathered source) result

def Fields.OrdersWithin (source : Octets) {β π : Type} (fields : Fields β π) : Prop :=
  ∀ (record : String) (total before : Nat) (s : Octets), s <:+ source →
    Within source (fields.ReadFrom source) (fields.inOrder record total before s)

namespace Shape

variable {α β π : Type}

theorem readsWithin_list {item : Shape α} (h : item.ReadsWithin source) :
    item.list.ReadsWithin source := by
  intro s hs
  rw [read]
  refine .withNext hs fun c r hlt hr => ?_
  split
  · exact (within_listItems h (suffix_tail hr)).map (fun _ => rfl) fun _ hxs => hxs
  · exact .error

theorem readsWithin_dict {item : Shape α} (h : item.ReadsWithin source) :
    item.dict.ReadsWithin source := by
  have hempty : item.dict.ReadFrom source .empty := fun e he => absurd he List.not_mem_nil
  intro s hs
  rw [read]
  refine .withNext hs fun c r hlt hr => ?_
  split
  · refine (within_foldMembers (R := item.dict.ReadFrom source) ?_ hempty (suffix_tail hr)).map
      (fun _ => rfl) fun _ hd => hd
    intro d key t hd ht
    refine (within_readMember h ht).map (fun _ => rfl) fun p hp e he => ?_
    rcases Dict.mem_insertEntry he with rfl | he
    · exact hp
    · exact hd e he
  · exact .error

theorem readsWithin_nullable {inner : Shape α} (h : inner.ReadsWithin source) :
    inner.nullable.ReadsWithin source := by
  intro s hs p hp
  rw [read] at hp
  obtain ⟨c, r, hlt, hskip, hread⟩ := exists_of_withNext_ok hp
  split at hread
  · have hnone : inner.nullable.ReadFrom source none := fun _ ha => absurd ha (by simp)
    have hr := (suffix_of_skipSpace hskip).trans hs
    exact within_dropWord hnone (suffix_tail hr) p hread
  · rename_i hc
    cases hinner : inner.read s with
    | error f => simp [hinner, Except.map] at hread
    | ok q =>
      rw [hinner] at hread
      obtain rfl := Except.ok.inj hread
      obtain ⟨hrest, hvalue⟩ := h s hs q hinner
      have htaken : taken? (inner.read s) = some (q.value, q.rest) := by rw [hinner]; rfl
      refine ⟨hrest, fun a ha => ?_⟩
      obtain rfl := Option.some.inj ha
      exact ⟨hvalue, not_spellsNull_of_read hskip hc inner htaken⟩

theorem readsWithin_record {name : String} {closed : Bool} {fields : Fields β π} {make : β → α}
    {parts : α → β} (hassigns : fields.AssignsWithin source)
    (horders : fields.OrdersWithin source) :
    (record name closed fields make parts).ReadsWithin source := by
  intro s hs
  rw [read]
  refine .withNext hs fun c r hlt hr => ?_
  have hr := suffix_tail hr
  split
  · refine (within_foldMembers (R := fields.Gathered source) ?_ fields.gathered_blank hr).andThen
      fun p hrest hgathered => .bind fun b hb => ?_
    · intro slots key t hslots ht
      split
      · rename_i result hassign
        exact hassigns slots key t hslots ht result hassign
      · split
        · exact .error
        -- An open record passes over the member and keeps what it has.
        · exact (within_readMember (fun _ => Within.of_local local_skipValue) ht).map
            (fun _ => rfl) fun _ _ => hslots
    · exact .ok hrest ⟨b, rfl, fields.readFrom_complete p.value hgathered hb⟩
  · split
    · exact (horders _ _ _ r hr).andThen fun p hrest hb =>
        (stays_closeList hrest).andThen fun q hclose _ => .ok hclose ⟨p.value, rfl, hb⟩
    · exact .error

end Shape

namespace Fields

variable {α β π : Type} {name : String} {presence : Presence α} {shape : Shape α}
  {rest : Fields β π}

theorem assignsWithin_field (hshape : shape.ReadsWithin source)
    (hrest : rest.AssignsWithin source) :
    (field name presence shape rest).AssignsWithin source := by
  rintro ⟨slot, slots⟩ key s hgathered hs result h
  rw [assign] at h
  split at h
  · obtain rfl := Option.some.inj h
    split
    · exact .error
    · refine (within_readMember hshape hs).map (fun _ => rfl) fun p hp => ?_
      refine ⟨fun a ha => ?_, hgathered.2⟩
      obtain rfl := Option.some.inj ha
      exact hp
  · obtain ⟨result', hassign, rfl⟩ := Option.map_eq_some_iff.mp h
    exact (hrest slots key s hgathered.2 hs result' hassign).map (fun _ => rfl)
      fun _ hp => ⟨hgathered.1, hp⟩

theorem ordersWithin_field (hshape : shape.ReadsWithin source) (hrest : rest.OrdersWithin source) :
    (field name presence shape rest).OrdersWithin source := by
  intro record total before s hs
  rw [inOrder]
  split
  · exact .error
  · split
    · rename_i a habsent
      exact (hrest _ _ _ s hs).map (fun _ => rfl)
        fun _ hb => ⟨.inl (Presence.inObject_of_inList habsent), hb⟩
    · exact .error
  · rename_i u r hlt hnext
    have hr : r <:+ source := suffix_of_nextItem hs hnext
    split
    · exact .error
    · rename_i a r' hlt' hread
      obtain ⟨hr', ha⟩ := hshape r hr _ hread
      exact (hrest _ _ _ r' hr').map (fun _ => rfl) fun _ hb => ⟨.inr ha, hb⟩

end Fields

mutual

/-- **What a shape reads comes from the source.** -/
theorem Shape.readsWithin : {α : Type} → (shape : Shape α) → shape.ReadsWithin source
  | _, .text => fun s hs => by
    rw [Shape.read]
    exact stays_readString hs
  | _, .integer _ => fun s hs => by
    rw [Shape.read]
    exact stays_readInteger hs
  | _, .flag => fun s hs => by
    rw [Shape.read]
    exact stays_readFlag hs
  | _, .choice _ _ => fun s hs => by
    rw [Shape.read]
    exact stays_readChoice hs
  | _, .payload => fun s hs => by
    rw [Shape.read]
    exact within_readPayload hs
  | _, .list item => Shape.readsWithin_list item.readsWithin
  | _, .dict item => Shape.readsWithin_dict item.readsWithin
  | _, .nullable inner => Shape.readsWithin_nullable inner.readsWithin
  | _, .record _ _ fields _ _ =>
    Shape.readsWithin_record fields.assignsWithin fields.ordersWithin

theorem Fields.assignsWithin : {β π : Type} → (fields : Fields β π) → fields.AssignsWithin source
  | _, _, .done => fun _ _ _ _ _ _ h => by
    rw [Fields.assign] at h
    exact absurd h (by simp)
  | _, _, .field _ _ shape rest =>
    Fields.assignsWithin_field shape.readsWithin rest.assignsWithin

theorem Fields.ordersWithin : {β π : Type} → (fields : Fields β π) → fields.OrdersWithin source
  | _, _, .done => fun _ _ _ s hs => by
    rw [Fields.inOrder]
    exact .ok hs trivial
  | _, _, .field _ _ shape rest =>
    Fields.ordersWithin_field shape.readsWithin rest.ordersWithin

end

/-! ### What is read is valid -/

mutual

/-- **Everything that a lawful shape reads is valid.** -/
theorem Shape.valid_of_readFrom : {α : Type} → (shape : Shape α) → shape.Lawful → {a : α} →
    shape.ReadFrom source a → shape.Valid a
  | _, .text, _, _, _ => trivial
  | _, .integer _, _, _, _ => trivial
  | _, .flag, _, _, _ => trivial
  | _, .choice _ _, _, _, _ => trivial
  | _, .payload, _, _, h => h.1
  | _, .list item, hlawful, xs, h => by
    rw [Shape.Lawful] at hlawful
    rw [Shape.Valid]
    exact fun x hx => item.valid_of_readFrom hlawful (h x hx)
  | _, .dict item, hlawful, d, h => by
    rw [Shape.Lawful] at hlawful
    rw [Shape.Valid]
    exact fun e he => item.valid_of_readFrom hlawful (h e he)
  | _, .nullable inner, hlawful, x, h => by
    rw [Shape.Lawful] at hlawful
    rw [Shape.Valid]
    exact fun a ha => (h a ha).imp_left (inner.valid_of_readFrom hlawful)
  | _, .record name closed fields make parts, hlawful, a, h => by
    rw [Shape.Lawful] at hlawful
    obtain ⟨-, hparts, -, hfields⟩ := hlawful
    obtain ⟨b, rfl, hb⟩ := h
    rw [Shape.Valid, hparts]
    exact fields.valid_of_readFrom hfields hb

theorem Fields.valid_of_readFrom : {β π : Type} → (fields : Fields β π) → fields.Lawful →
    {b : β} → fields.ReadFrom source b → fields.Valid b
  | _, _, .done, _, _, _ => trivial
  | _, _, .field name presence shape rest, hlawful, (a, b), h => by
    rw [Fields.Lawful] at hlawful
    obtain ⟨⟨-, hdefault⟩, hshape, hrest⟩ := hlawful
    rw [Fields.Valid]
    obtain ⟨ha, hb⟩ := h
    exact ⟨ha.elim (hdefault a) (shape.valid_of_readFrom hshape), rest.valid_of_readFrom hrest hb⟩

end

end

end FleetPlan.Json
