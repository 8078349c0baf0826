/-
What a shape takes is what the scanner takes.

The scanner keeps the containers that are open on a stack, and what it does with one value
does not depend on those around it (`value?_append`).  So it can be compared with readers
one value at a time.  Whatever a shape takes is a value for the scanner, from which follows
that there is a tree of it, and that of a tree nothing else can be taken.
-/
import FleetPlan.Proofs.Json.Steps
import FleetPlan.Proofs.Json.TreeScan

namespace FleetPlan.Json

namespace Scan

/-! ### One value at a time -/

/-- **Scanning a value inside containers is scanning it alone, and going on behind it.** -/
theorem scan_append (n : Nat) : ∀ s : Octets, s.length = n → ∀ inner outer : List Frame,
    value? (inner ++ outer) s = ((value? inner s).bind fun e => after? outer e.2) ∧
      after? (inner ++ outer) s = (after? inner s).bind fun e => after? outer e.2 := by
  induction n using Nat.strongRecOn with
  | ind n ih =>
    intro s hn inner outer
    have hafter : after? (inner ++ outer) s =
        (after? inner s).bind fun e => after? outer e.2 := by
      cases inner with
      | nil => rw [List.nil_append, after?_nil, Option.bind_some]
      | cons frame inner =>
        rw [List.cons_append, after?_cons, after?_cons]
        cases hs : skipSpace s with
        | nil => rfl
        | cons c r =>
          have hr := length_lt_of_skipSpace hs
          dsimp only
          split
          · cases hbegin : taken? (beginItem frame r) with
            | none => rfl
            | some e =>
              have he : e.2.length < r.length + 1 := (taken?_eq_some_iff.mp hbegin).1
              exact (ih e.2.length (by omega) e.2 rfl (frame :: inner) outer).1
          · split
            · exact (ih r.length (by omega) r rfl inner outer).2
            · rfl
    refine ⟨?_, hafter⟩
    rw [value?_eq, value?_eq]
    cases hs : skipSpace s with
    | nil => rfl
    | cons c r =>
      have hr := length_lt_of_skipSpace hs
      dsimp only
      cases Frame.opened? c with
      | none =>
        dsimp only
        cases hscalar : taken? (skipScalar (c :: r)) with
        | none => rfl
        | some e =>
          have he : e.2.length < r.length + 1 := (taken?_eq_some_iff.mp hscalar).1
          exact (ih e.2.length (by omega) e.2 rfl inner outer).2
      | some frame =>
        dsimp only [inside?]
        cases ht : skipSpace r with
        | nil => rfl
        | cons d t =>
          have hlt := length_lt_of_skipSpace ht
          dsimp only
          split
          · exact (ih t.length (by omega) t rfl inner outer).2
          · cases hbegin : taken? (beginItem frame (d :: t)) with
            | none => rfl
            | some e =>
              have he : e.2.length < t.length + 1 + 1 := (taken?_eq_some_iff.mp hbegin).1
              exact (ih e.2.length (by omega) e.2 rfl (frame :: inner) outer).1

/-- What is left behind a value is scanned on. -/
theorem value?_of_skips {s r : Octets} (h : value? [] s = some ((), r)) (stack : List Frame) :
    value? stack s = after? stack r := by
  have happend := (scan_append _ s rfl [] stack).1
  rw [List.nil_append, h] at happend
  exact happend

end Scan

/-! ### Scalars -/

/-- What is taken is a value for the scanner. -/
def Skips {α : Type} (f : Octets → Option (α × Octets)) : Prop :=
  ∀ s a r, f s = some (a, r) → Scan.value? [] s = some ((), r)

open Scan

theorem skipText_of_readText {s r : Octets} {text : String}
    (h : taken? (readText s) = some (text, r)) : taken? (skipText s) = some ((), r) := by
  obtain ⟨w, rfl, hw⟩ := exists_spells h
  exact hw.skip r

theorem taken?_read_of_readNumber {s r : Octets} {n : Number}
    (h : taken? (readNumber s) = some (n, r)) :
    ((taken? (Numeral.read .badNumber s)).map fun e => ((), e.2)) = some ((), r) := by
  rw [taken?_readNumber_eq, Numeral.taken?_read_cut .endsInValue .badNumber] at h
  obtain ⟨⟨x, r'⟩, hread, hnumber⟩ := Option.bind_eq_some_iff.mp h
  obtain ⟨n', -, heq⟩ := Option.map_eq_some_iff.mp hnumber
  rw [hread, ← (Prod.mk.inj heq).2]
  rfl

theorem taken?_skipScalar_of_scalar? {s r : Octets} {v : Value}
    (h : Value.scalar? s = some (v, r)) : taken? (skipScalar s) = some ((), r) := by
  cases s with
  | nil => cases h
  | cons c t =>
    have hmap {α : Type} {x : Option (α × Octets)} {g : α → Value}
        (h : (x.map fun e => (g e.1, e.2)) = some (v, r)) : ∃ a, x = some (a, r) := by
      obtain ⟨e, rfl, heq⟩ := Option.map_eq_some_iff.mp h
      exact ⟨e.1, by rw [← (Prod.mk.inj heq).2]⟩
    rw [Value.scalar?] at h
    rw [taken?_skipScalar_cons]
    split at h
    · obtain ⟨text, h⟩ := hmap h
      rw [if_pos ‹_›]
      exact skipText_of_readText h
    rw [if_neg ‹_›]
    split at h
    · rw [if_pos ‹_›]
      exact (hmap (g := fun _ => .null) h).choose_spec
    rw [if_neg ‹_›]
    split at h
    · rw [if_pos ‹_›]
      exact (hmap (g := fun _ => .boolean true) h).choose_spec
    rw [if_neg ‹_›]
    split at h
    · rw [if_pos ‹_›]
      exact (hmap (g := fun _ => .boolean false) h).choose_spec
    rw [if_neg ‹_›]
    split at h
    · obtain ⟨n, h⟩ := hmap h
      rw [if_pos ‹_›]
      exact taken?_read_of_readNumber h
    · cases h

/-- A scalar is a value for the scanner. -/
theorem value?_of_scalar? {s r : Octets} {v : Value}
    (h : Value.scalar? (skipSpace s) = some (v, r)) : Scan.value? [] s = some ((), r) := by
  have hscalar := taken?_skipScalar_of_scalar? h
  rw [value?_eq]
  cases hs : skipSpace s with
  | nil =>
    rw [hs] at h
    cases h
  | cons c t =>
    rw [hs] at hscalar
    have hopened : Frame.opened? c = none := by
      unfold Frame.opened?
      split
      · rename_i hc
        rw [taken?_skipScalar_cons, hc] at hscalar
        cases hscalar
      · split
        · rename_i hc
          rw [taken?_skipScalar_cons, hc] at hscalar
          cases hscalar
        · rfl
    simp only [hopened, hscalar, Option.bind_some, after?_nil]

/-! ### Loops -/

section

variable {α σ : Type} {first : Bool} {s r : Octets} {a : α}

/-- The scanner goes on inside a container where the reader does. -/
theorem loop?_of_atNext {f : Frame} {close : Octets → Option (α × Octets)}
    {next : UInt8 → Octets → Option (α × Octets)}
    (h : atNext f.closer first close next s = some (a, r)) :
    (∃ r', skipSpace s = f.closer :: r' ∧ close r' = some (a, r)) ∨
      ∃ c t, next c t = some (a, r) ∧ t.length < s.length ∧
        ∀ stack, loop? f stack first s = item? f stack (c :: t) := by
  unfold atNext at h
  cases hs : skipSpace s with
  | nil =>
    rw [hs] at h
    cases h
  | cons c t =>
    have ht := length_lt_of_skipSpace hs
    have hloop (stack : List Frame) := loop?_eq f stack first s
    simp only [hs] at h hloop
    by_cases hclose : c = f.closer
    · rw [if_pos hclose] at h
      exact .inl ⟨t, by rw [hclose], h⟩
    simp only [if_neg hclose] at h hloop
    cases first with
    | true =>
      refine .inr ⟨c, t, h, ht, fun stack => ?_⟩
      rw [hloop, if_pos rfl, ← item?_skipSpace, hs]
    | false =>
      simp only [Bool.false_eq_true, if_false] at h hloop
      by_cases hcomma : c = Ascii.comma
      · simp only [if_pos hcomma] at h hloop
        cases hu : skipSpace t with
        | nil =>
          rw [hu] at h
          cases h
        | cons d u =>
          rw [hu] at h
          refine .inr ⟨d, u, h, Nat.lt_trans (length_lt_of_skipSpace hu) ht, fun stack => ?_⟩
          rw [hloop, ← item?_skipSpace, hu]
      · rw [if_neg hcomma] at h
        cases h

theorem loop?_of_atItem {close item : Octets → Option (α × Octets)}
    (h : atItem first close item s = some (a, r)) :
    (∃ r', skipSpace s = Ascii.closeBracket :: r' ∧ close r' = some (a, r)) ∨
      ∃ t, item t = some (a, r) ∧ t.length ≤ s.length ∧
        ∀ stack, loop? .list stack first s = Scan.value? (.list :: stack) t := by
  refine (loop?_of_atNext (f := .list) h).imp_right ?_
  rintro ⟨c, t, hnext, ht, hloop⟩
  split at hnext
  · cases hnext
  · exact ⟨c :: t, hnext, ht, hloop⟩

theorem loop?_of_atName {close name : Octets → Option (α × Octets)}
    (h : atName first close name s = some (a, r)) :
    (∃ r', skipSpace s = Ascii.closeBrace :: r' ∧ close r' = some (a, r)) ∨
      ∃ t, name t = some (a, r) ∧ t.length < s.length ∧
        ∀ stack, loop? .object stack first s = item? .object stack (Ascii.quote :: t) := by
  refine (loop?_of_atNext (f := .object) h).imp_right ?_
  rintro ⟨c, t, hnext, ht, hloop⟩
  split at hnext
  · rename_i hquote
    exact ⟨t, hnext, ht, hquote ▸ hloop⟩
  · cases hnext

/-- Items that are values for the scanner are scanned up to the end of their list. -/
theorem skips_listItems {item : Reader α} (hitem : Skips fun s => taken? (item s)) :
    (first : Bool) → {s : Octets} → {xs : List α} → {r : Octets} →
      taken? (listItems item first s) = some (xs, r) → loop? .list [] first s = some ((), r)
  | first, s, xs, r, h => by
    rw [taken?_listItems_eq] at h
    obtain ⟨r', hs, hclose⟩ | ⟨t, hnext, ht, hloop⟩ := loop?_of_atItem h
    · obtain ⟨-, rfl⟩ := Prod.mk.inj (Option.some.inj hclose)
      rw [loop?_close hs, after?_nil]
    · obtain ⟨⟨a, t'⟩, ha, hmap⟩ := Option.bind_eq_some_iff.mp hnext
      obtain ⟨⟨as, r'⟩, hrest, heq⟩ := Option.map_eq_some_iff.mp hmap
      obtain ⟨-, rfl⟩ := Prod.mk.inj heq
      have hlt : t'.length < t.length := (taken?_eq_some_iff.mp ha).1
      rw [hloop, value?_of_skips (hitem _ _ _ ha)]
      exact skips_listItems hitem false hrest
termination_by _ s => s.length

/-- What stands behind a name is a colon and a value for the scanner. -/
def SkipsMember {α : Type} (f : Octets → Option (α × Octets)) : Prop :=
  ∀ s a r, f s = some (a, r) →
    ∃ t, skipSpace s = Ascii.colon :: t ∧ Scan.value? [] t = some ((), r)

theorem skips_readMember {value : Reader α} (h : Skips fun s => taken? (value s)) :
    SkipsMember fun s => taken? (readMember value s) := by
  intro s a r hread
  dsimp only at hread
  rw [taken?_readMember_eq] at hread
  cases hs : skipSpace s with
  | nil =>
    rw [hs] at hread
    cases hread
  | cons c t =>
    rw [hs] at hread
    dsimp only at hread
    split at hread
    · rename_i hc
      exact ⟨t, by rw [hc], h _ _ _ hread⟩
    · cases hread

/-- Members whose values are values for the scanner are scanned up to the end of the object. -/
theorem skips_foldMembers {member : σ → String → Reader σ}
    (hmember : ∀ g key, SkipsMember fun s => taken? (member g key s)) :
    (first : Bool) → {g : σ} → {s : Octets} → {g' : σ} → {r : Octets} →
      taken? (foldMembers member first g s) = some (g', r) →
        loop? .object [] first s = some ((), r)
  | first, g, s, g', r, h => by
    rw [taken?_foldMembers_eq] at h
    obtain ⟨r', hs, hclose⟩ | ⟨t, hname, ht, hloop⟩ := loop?_of_atName h
    · obtain ⟨-, rfl⟩ := Prod.mk.inj (Option.some.inj hclose)
      rw [loop?_close hs, after?_nil]
    · obtain ⟨⟨key, t₁⟩, hkey, hname⟩ := Option.bind_eq_some_iff.mp hname
      obtain ⟨⟨g₁, t₂⟩, hg₁, hrest⟩ := Option.bind_eq_some_iff.mp hname
      obtain ⟨t₃, hcolon, hvalue⟩ := hmember g key _ _ _ hg₁
      have hlt₁ : t₁.length < t.length := (taken?_eq_some_iff.mp hkey).1
      have hlt₂ : t₂.length < t₁.length := (taken?_eq_some_iff.mp hg₁).1
      have hbegin : taken? (beginItem .object (Ascii.quote :: t)) = some ((), t₃) := by
        rw [taken?_beginItem_object, skipSpace_cons (by decide)]
        simp only [if_true, skipText_of_readText hkey, Option.bind_some, colon?, hcolon]
      rw [hloop, item?, hbegin, Option.bind_some, value?_of_skips hvalue]
      exact skips_foldMembers hmember false hrest
termination_by _ _ s => s.length

end

/-! ### Scalars of a kind -/

namespace Value

def asText? : Value → Option String
  | text s => some s
  | _ => none

def asBoolean? : Value → Option Bool
  | boolean b => some b
  | _ => none

def asNull? : Value → Option Unit
  | null => some ()
  | _ => none

def asInteger? (range : IntRange) : Value → Option (IntIn range)
  | number n => n.within? range
  | _ => none

end Value

/-- Reads scalars of one kind. -/
def ReadsScalars {α : Type} (read : Reader α) (kind : Value → Option α) : Prop :=
  ∀ s, taken? (read s) =
    (Value.scalar? (skipSpace s)).bind fun e => (kind e.1).map fun a => (a, e.2)

/-- Scalars of one kind, by the octet that they begin with. -/
theorem scalar?_bind {α : Type} (kind : Value → Option α) (c : UInt8) (r : Octets) :
    ((Value.scalar? (c :: r)).bind fun e => (kind e.1).map fun a => (a, e.2)) =
      if c = Ascii.quote then
        (taken? (readText r)).bind fun e => (kind (.text e.1)).map fun a => (a, e.2)
      else if c = Ascii.lowerN then
        (taken? (dropWord nullTail r)).bind fun e => (kind .null).map fun a => (a, e.2)
      else if c = Ascii.lowerT then
        (taken? (dropWord trueTail r)).bind fun e => (kind (.boolean true)).map fun a => (a, e.2)
      else if c = Ascii.lowerF then
        (taken? (dropWord falseTail r)).bind fun e => (kind (.boolean false)).map fun a => (a, e.2)
      else if c = Ascii.minus || Ascii.isDigit c then
        (taken? (readNumber (c :: r))).bind fun e => (kind (.number e.1)).map fun a => (a, e.2)
      else none := by
  rw [Value.scalar?]
  repeat' split
  all_goals first | exact Option.bind_map .. | rfl

theorem readsScalars_readString : ReadsScalars readString Value.asText? := by
  intro s
  rw [taken?_readString]
  cases skipSpace s with
  | nil => rfl
  | cons c r =>
    rw [scalar?_bind]
    dsimp only
    by_cases hquote : c = Ascii.quote
    · rw [if_pos hquote, if_pos hquote]
      cases taken? (readText r) <;> rfl
    · rw [if_neg hquote, if_neg hquote]
      simp [Value.asText?]

theorem readsScalars_readUnit : ReadsScalars readUnit Value.asNull? := by
  intro s
  rw [taken?_readUnit]
  cases skipSpace s with
  | nil => rfl
  | cons c r =>
    rw [scalar?_bind]
    dsimp only
    by_cases hnull : c = Ascii.lowerN
    · rw [if_pos hnull, if_neg (by rw [hnull]; decide), if_pos hnull]
      cases taken? (dropWord nullTail r) <;> rfl
    · rw [if_neg hnull, if_neg hnull]
      simp [Value.asNull?]

theorem readsScalars_readFlag : ReadsScalars readFlag Value.asBoolean? := by
  intro s
  rw [taken?_readFlag]
  cases skipSpace s with
  | nil => rfl
  | cons c r =>
    rw [scalar?_bind]
    dsimp only
    by_cases htrue : c = Ascii.lowerT
    · rw [if_pos htrue, if_neg (by rw [htrue]; decide), if_neg (by rw [htrue]; decide),
        if_pos htrue]
      cases taken? (dropWord trueTail r) <;> rfl
    rw [if_neg htrue, if_neg htrue]
    by_cases hfalse : c = Ascii.lowerF
    · rw [if_pos hfalse, if_neg (by rw [hfalse]; decide), if_neg (by rw [hfalse]; decide),
        if_pos hfalse]
      cases taken? (dropWord falseTail r) <;> rfl
    · rw [if_neg hfalse, if_neg hfalse]
      simp [Value.asBoolean?]

theorem readsScalars_readInteger (range : IntRange) :
    ReadsScalars (readInteger range) (Value.asInteger? range) := by
  intro s
  rw [taken?_readInteger]
  cases skipSpace s with
  | nil => rfl
  | cons c r =>
    rw [scalar?_bind]
    dsimp only
    by_cases hnumber : (c = Ascii.minus || Ascii.isDigit c) = true
    · have hne {d : UInt8} (hd : (d = Ascii.minus || Ascii.isDigit d) = false) : c ≠ d := by
        rintro rfl
        rw [hd] at hnumber
        cases hnumber
      rw [if_pos hnumber, if_neg (hne (by decide)), if_neg (hne (by decide)),
        if_neg (hne (by decide)), if_neg (hne (by decide)), if_pos hnumber]
      rfl
    · rw [if_neg hnumber, if_neg hnumber]
      simp [Value.asInteger?]

theorem ReadsScalars.skips {α : Type} {read : Reader α} {kind : Value → Option α}
    (h : ReadsScalars read kind) : Skips fun s => taken? (read s) := by
  intro s a r hread
  obtain ⟨⟨v, r'⟩, hscalar, hkind⟩ := Option.bind_eq_some_iff.mp ((h s).symm.trans hread)
  obtain ⟨a', -, heq⟩ := Option.map_eq_some_iff.mp hkind
  obtain ⟨-, rfl⟩ := Prod.mk.inj heq
  exact value?_of_scalar? hscalar

/-! ### Shapes -/

theorem skips_readPayload : Skips fun s => taken? (readPayload s) := by
  intro s p r h
  rw [← value?_skipSpace]
  exact (taken?_readPayload_iff.mp h).2

/-- What begins with its first octet behind the space can be told by that octet. -/
theorem Skips.next {α : Type} {f : Octets → Option (α × Octets)}
    {g : UInt8 → Octets → Option (α × Octets)}
    (hf : ∀ s, f s = match skipSpace s with
      | [] => none
      | c :: t => g c t)
    (hg : ∀ {s c t a r}, skipSpace s = c :: t → g c t = some (a, r) →
      Scan.value? [] s = some ((), r)) : Skips f := by
  intro s a r h
  rw [hf] at h
  cases hs : skipSpace s with
  | nil =>
    rw [hs] at h
    cases h
  | cons c t =>
    rw [hs] at h
    exact hg hs h

section

variable {s r t : Octets}

theorem value?_of_list (hs : skipSpace s = Ascii.openBracket :: t)
    (h : loop? .list [] true t = some ((), r)) : Scan.value? [] s = some ((), r) := by
  have hopened : Frame.opened? Ascii.openBracket = some .list := by decide
  rw [value?_eq, hs]
  simp only [hopened]
  exact h

theorem value?_of_object (hs : skipSpace s = Ascii.openBrace :: t)
    (h : loop? .object [] true t = some ((), r)) : Scan.value? [] s = some ((), r) := by
  have hopened : Frame.opened? Ascii.openBrace = some .object := by decide
  rw [value?_eq, hs]
  simp only [hopened]
  exact h

/-- A choice in an object is an object of one member. -/
theorem loop?_of_choice {key : String} {r₁ r₂ : Octets} {u : Unit}
    (hs : skipSpace s = Ascii.quote :: t) (hkey : taken? (readText t) = some (key, r₁))
    (hunit : taken? (readMember readUnit r₁) = some (u, r₂))
    (hclose : taken? (closeObject r₂) = some (u, r)) : loop? .object [] true s = some ((), r) := by
  obtain ⟨t₁, hcolon, hvalue⟩ := skips_readMember readsScalars_readUnit.skips _ _ _ hunit
  have hbegin : taken? (beginItem .object s) = some ((), t₁) := by
    rw [taken?_beginItem_object, hs]
    simp only [if_true, skipText_of_readText hkey, Option.bind_some, colon?, hcolon]
  have hend : skipSpace r₂ = Ascii.closeBrace :: r := by
    rw [taken?_closeObject_eq] at hclose
    split at hclose
    · cases hclose
    · split at hclose
      · rename_i hskip hc
        rw [hskip, hc, (Prod.mk.inj (Option.some.inj hclose)).2]
      · cases hclose
  rw [loop?_eq, hs]
  dsimp only
  rw [if_neg (by decide), if_pos rfl, item?, hbegin, Option.bind_some, value?_of_skips hvalue]
  change loop? .object [] false r₂ = some ((), r)
  rw [loop?_close hend, after?_nil]

end

theorem skips_readChoice {α : Type} (options : List α) (name : α → String) :
    Skips fun s => taken? (readChoice options name s) := by
  refine .next (taken?_readChoice options name) fun {s c t a r} hs h => ?_
  split at h
  · rename_i hquote
    obtain ⟨⟨key, t'⟩, hkey, hmap⟩ := Option.bind_eq_some_iff.mp h
    obtain ⟨a', -, heq⟩ := Option.map_eq_some_iff.mp hmap
    obtain ⟨-, rfl⟩ := Prod.mk.inj heq
    refine value?_of_scalar? (v := .text key) ?_
    rw [hs, Value.scalar?, if_pos hquote, hkey]
    rfl
  · split at h
    · rename_i hbrace
      rw [hbrace] at hs
      refine value?_of_object hs ?_
      cases ht : skipSpace t with
      | nil =>
        rw [ht] at h
        cases h
      | cons d t' =>
        rw [ht] at h
        dsimp only at h
        split at h
        · rename_i hquote
          rw [hquote] at ht
          obtain ⟨⟨key, t₁⟩, hkey, h⟩ := Option.bind_eq_some_iff.mp h
          obtain ⟨a', -, h⟩ := Option.bind_eq_some_iff.mp h
          obtain ⟨⟨u, t₂⟩, hunit, h⟩ := Option.bind_eq_some_iff.mp h
          obtain ⟨⟨u', t₃⟩, hclose, heq⟩ := Option.map_eq_some_iff.mp h
          obtain ⟨-, rfl⟩ := Prod.mk.inj heq
          exact loop?_of_choice ht hkey hunit hclose
        · cases h
    · cases h

/-- Members of no field are passed over, or nothing is taken of them. -/
theorem skipsMember_member {β π : Type} {fields : Fields β π} {slots : π} {key : String}
    (h : SkipsMember (fields.assigned? slots key)) (closed : Bool) :
    SkipsMember fun s => taken? (fields.member closed slots key s) := by
  intro s slots' r hread
  dsimp only at hread
  rw [Fields.taken?_member] at hread
  split at hread
  · exact h _ _ _ hread
  · split at hread
    · cases hread
    · obtain ⟨⟨u, r'⟩, hskip, heq⟩ := Option.map_eq_some_iff.mp hread
      obtain ⟨-, rfl⟩ := Prod.mk.inj heq
      exact skips_readMember (fun _ _ _ h => h) _ _ _ hskip

/-- What the shape takes is a value for the scanner. -/
abbrev Shape.Skips {α : Type} (shape : Shape α) : Prop :=
  Json.Skips fun s => taken? (shape.read s)

/-- What the fields take in their order are the items of a list for the scanner. -/
def Fields.SkipsListed {β π : Type} (fields : Fields β π) : Prop :=
  ∀ {record : String} {total before : Nat} {s : Octets} {b : β} {r : Octets},
    fields.listed? record total before s = some (b, r) →
      loop? .list [] (before == 0) s = some ((), r)

namespace Shape

variable {α β π : Type}

theorem skips_list {item : Shape α} (h : item.Skips) : item.list.Skips :=
  .next item.taken?_read_list fun hs hread => by
    split at hread
    · rename_i hbracket
      rw [hbracket] at hs
      exact value?_of_list hs (skips_listItems h true hread)
    · cases hread

theorem skips_dict {item : Shape α} (h : item.Skips) : item.dict.Skips :=
  .next item.taken?_read_dict fun hs hread => by
    split at hread
    · rename_i hbrace
      rw [hbrace] at hs
      refine value?_of_object hs (skips_foldMembers (fun d key => ?_) true hread)
      intro s d' r hmember
      simp only [taken?_map_map_eq_some_iff] at hmember
      obtain ⟨a, hvalue, -⟩ := hmember
      exact skips_readMember h _ _ _ hvalue
    · cases hread

theorem skips_nullable {inner : Shape α} (h : inner.Skips) : inner.nullable.Skips :=
  .next inner.taken?_read_nullable fun {s c t a r} hs hread => by
    split at hread
    · rename_i hnull
      obtain ⟨⟨u, r'⟩, hword, heq⟩ := Option.map_eq_some_iff.mp hread
      obtain ⟨-, rfl⟩ := Prod.mk.inj heq
      refine readsScalars_readUnit.skips _ u _ ?_
      dsimp only
      rw [taken?_readUnit, hs]
      exact (if_pos hnull).trans hword
    · obtain ⟨⟨a', r'⟩, hinner, heq⟩ := Option.map_eq_some_iff.mp hread
      obtain ⟨-, rfl⟩ := Prod.mk.inj heq
      rw [← value?_skipSpace, hs]
      exact h _ _ _ hinner

theorem skips_record {name : String} {closed : Bool} {fields : Fields β π} {make : β → α}
    {parts : α → β} (hassigned : ∀ slots key, SkipsMember (fields.assigned? slots key))
    (hlisted : fields.SkipsListed) : (record name closed fields make parts).Skips :=
  .next (taken?_read_record name closed fields make parts) fun hs hread => by
    split at hread
    · rename_i hbrace
      rw [hbrace] at hs
      obtain ⟨⟨slots, r'⟩, hfold, hcomplete⟩ := Option.bind_eq_some_iff.mp hread
      obtain ⟨b, -, heq⟩ := Option.map_eq_some_iff.mp hcomplete
      obtain ⟨-, rfl⟩ := Prod.mk.inj heq
      exact value?_of_object hs (skips_foldMembers (fun slots key =>
        skipsMember_member (hassigned slots key) closed) true hfold)
    · split at hread
      · rename_i hbracket
        rw [hbracket] at hs
        obtain ⟨⟨b, r'⟩, hitems, heq⟩ := Option.map_eq_some_iff.mp hread
        obtain ⟨-, rfl⟩ := Prod.mk.inj heq
        exact value?_of_list hs (hlisted hitems)
      · cases hread

end Shape

mutual

/-- **What a shape takes is a value for the scanner.** -/
theorem Shape.skips : {α : Type} → (shape : Shape α) → shape.Skips
  | _, .text => by
    simp only [Shape.Skips, Shape.read]
    exact readsScalars_readString.skips
  | _, .integer range => by
    simp only [Shape.Skips, Shape.read]
    exact (readsScalars_readInteger range).skips
  | _, .flag => by
    simp only [Shape.Skips, Shape.read]
    exact readsScalars_readFlag.skips
  | _, .payload => by
    simp only [Shape.Skips, Shape.read]
    exact skips_readPayload
  | _, .choice options name => by
    simp only [Shape.Skips, Shape.read]
    exact skips_readChoice options name
  | _, .list item => Shape.skips_list item.skips
  | _, .dict item => Shape.skips_dict item.skips
  | _, .nullable inner => Shape.skips_nullable inner.skips
  | _, .record _ _ fields _ _ => Shape.skips_record fields.skips_assigned? fields.skips_listed?

theorem Fields.skips_assigned? : {β π : Type} → (fields : Fields β π) → (slots : π) →
    (key : String) → SkipsMember (fields.assigned? slots key)
  | _, _, .done, _, _ => fun _ _ _ h => nomatch h
  | _, _, .field name presence shape rest, (slot, slots), key => fun s a r h => by
    rw [Fields.assigned?_field] at h
    split at h
    · split at h
      · cases h
      · obtain ⟨⟨a', r'⟩, hread, heq⟩ := Option.map_eq_some_iff.mp h
        obtain ⟨-, rfl⟩ := Prod.mk.inj heq
        exact skips_readMember shape.skips _ _ _ hread
    · obtain ⟨⟨slots', r'⟩, hassign, heq⟩ := Option.map_eq_some_iff.mp h
      obtain ⟨-, rfl⟩ := Prod.mk.inj heq
      exact rest.skips_assigned? slots key _ _ _ hassign

theorem Fields.skips_listed? : {β π : Type} → (fields : Fields β π) → fields.SkipsListed
  | _, _, .done => fun h => by
    rw [Fields.listed?_done] at h
    obtain ⟨⟨u, r'⟩, hclose, heq⟩ := Option.map_eq_some_iff.mp h
    obtain ⟨-, rfl⟩ := Prod.mk.inj heq
    rw [taken?_closeList_eq] at hclose
    split at hclose
    · cases hclose
    · split at hclose
      · rename_i hskip hc
        rw [hc] at hskip
        rw [loop?_close hskip, after?_nil, (Prod.mk.inj (Option.some.inj hclose)).2]
      · cases hclose
  | _, _, .field _ _ shape rest => fun h => by
    rw [Fields.listed?_field] at h
    obtain ⟨r', hs, hclose⟩ | ⟨t, hnext, ht, hloop⟩ := loop?_of_atItem h
    · obtain ⟨b', -, heq⟩ := Option.map_eq_some_iff.mp hclose
      obtain ⟨-, rfl⟩ := Prod.mk.inj heq
      rw [loop?_close hs, after?_nil]
    · obtain ⟨⟨a, t'⟩, ha, hmap⟩ := Option.bind_eq_some_iff.mp hnext
      obtain ⟨⟨b', r'⟩, hrest, heq⟩ := Option.map_eq_some_iff.mp hmap
      obtain ⟨-, rfl⟩ := Prod.mk.inj heq
      rw [hloop, value?_of_skips (shape.skips _ _ _ ha)]
      exact rest.skips_listed? hrest

end

namespace Skips

variable {α : Type} {f : Octets → Option (α × Octets)} {s m r : Octets} {a : α}

/-- What is taken is a tree. -/
theorem exists_tree (h : Skips f) (hread : f s = some (a, r)) : ∃ x : Tree, Spaced x.tokens s r := by
  obtain ⟨x, m, hx, -, hm⟩ := (Tree.scanned _ s rfl).1 [] _ (h s a r hread)
  rw [after?_nil] at hm
  exact ⟨x, (Prod.mk.inj (Option.some.inj hm)).2 ▸ hx⟩

/-- Of a tree nothing else can be taken. -/
theorem rest_eq (h : Skips f) {x : Tree} (hx : Spaced x.tokens s m) (hm : Delimited m)
    (hread : f s = some (a, r)) : r = m := by
  have hvalue := x.value?_of_spaced [] hx hm
  rw [h s a r hread, after?_nil] at hvalue
  exact (Prod.mk.inj (Option.some.inj hvalue)).2

end Skips

end FleetPlan.Json
