/-
Which trees a reader takes.

`Judges` says of a reader that of a tree, however it is laid out, something is taken just
when the tree has a property.  What such readers take one after the other is known from the
trees alone: of a tree nothing else can be taken than what stands there, so that each reader
begins where the next tree does.  Here are the readers of scalars and choices, and the loops.
-/
import FleetPlan.Proofs.Json.TextParts

namespace FleetPlan.Json

namespace Tree

/-- What a scalar of some kind says. -/
def scalar? {α : Type} (kind : Value → Option α) : Tree → Option α
  | scalar token => token.value?.bind kind
  | _ => none

/-- A name of the list, or an object whose one member has such a name and is null. -/
def Chooses (names : List String) (x : Tree) : Prop :=
  (∃ key ∈ names, x.scalar? Value.asText? = some key) ∨
    ∃ name y, x = .object [(name, y)] ∧ (∃ key ∈ names, name.text? = some key) ∧
      y.scalar? Value.asNull? = some ()

end Tree

/-! ### Scalars -/

section

variable {α : Type} {x : Tree} {s r : Octets}

theorem ReadsScalars.taken?_of_spaced {read : Reader α} {kind : Value → Option α}
    (h : ReadsScalars read kind) (hx : Spaced x.tokens s r) (hr : Delimited r) :
    taken? (read s) = (x.scalar? kind).map fun a => (a, r) := by
  rw [h]
  cases x with
  | scalar token =>
    rw [Tree.tokens] at hx
    obtain ⟨s', hs, rfl⟩ := hx
    rw [hs, token.scalar?_append hr, Tree.scalar?]
    cases token.value? <;> rfl
  | list items =>
    rw [Tree.tokens] at hx
    obtain ⟨s', hs, -⟩ := hx
    rw [hs]
    rfl
  | object members =>
    rw [Tree.tokens] at hx
    obtain ⟨s', hs, -⟩ := hx
    rw [hs]
    rfl

theorem ReadsScalars.reads_iff {read : Reader α} {kind : Value → Option α}
    (h : ReadsScalars read kind) (hx : Spaced x.tokens s r) (hr : Delimited r) :
    (∃ a, taken? (read s) = some (a, r)) ↔ (x.scalar? kind).isSome := by
  rw [h.taken?_of_spaced hx hr]
  cases x.scalar? kind <;> simp

/-- What kind of tree it is can be told from the first octet. -/
theorem Tree.kinds_of_spaced (hx : Spaced x.tokens s r) :
    (∃ token c t, x = .scalar token ∧ skipSpace s = c :: t ∧
      c ≠ Ascii.openBracket ∧ c ≠ Ascii.openBrace) ∨
    (∃ xs t, x = .list xs ∧ skipSpace s = Ascii.openBracket :: t ∧
      Spaced (itemTokens true xs) t r) ∨
    ∃ ms t, x = .object ms ∧ skipSpace s = Ascii.openBrace :: t ∧
      Spaced (memberTokens true ms) t r := by
  cases x with
  | scalar token =>
    rw [tokens] at hx
    obtain ⟨s', hs, -⟩ := hx
    obtain ⟨c, w, hw, -, hopened, -⟩ := token.exists_cons
    refine .inl ⟨token, c, w ++ s', rfl, by rw [hs, hw, List.cons_append], ?_, ?_⟩
    · rintro rfl
      exact absurd hopened (by decide)
    · rintro rfl
      exact absurd hopened (by decide)
  | list xs =>
    rw [tokens] at hx
    obtain ⟨t, hs, hxs⟩ := hx
    exact .inr (.inl ⟨xs, t, rfl, hs, hxs⟩)
  | object ms =>
    rw [tokens] at hx
    obtain ⟨t, hs, hms⟩ := hx
    exact .inr (.inr ⟨ms, t, rfl, hs, hms⟩)

/-! ### Loops -/

/-- What is taken of a tree is taken just when the tree has the property. -/
def Judges (f : Octets → Option (α × Octets)) (P : Tree → Prop) : Prop :=
  ∀ x s r, Spaced x.tokens s r → Delimited r → ((∃ a, f s = some (a, r)) ↔ P x)

/-- The same of the value behind a colon. -/
def JudgesMember (f : Octets → Option (α × Octets)) (P : Tree → Prop) : Prop :=
  ∀ x s r, Spaced ([Ascii.colon] :: x.tokens) s r → Delimited r → ((∃ a, f s = some (a, r)) ↔ P x)

theorem Judges.readMember {value : Reader α} {P : Tree → Prop}
    (h : Judges (fun s => taken? (value s)) P) :
    JudgesMember (fun s => taken? (readMember value s)) P := by
  intro x s r hx hr
  obtain ⟨t, hcolon, hx⟩ := hx
  simp only [taken?_readMember_of_colon hcolon]
  exact h x t r hx hr

theorem judges_skipValue : Judges (fun s => taken? (skipValue s)) fun _ => True := by
  intro x s r hx hr
  refine iff_of_true ⟨(), ?_⟩ trivial
  have hvalue := x.value?_of_spaced [] hx hr
  rwa [Scan.after?_nil] at hvalue

/-- Of a tree and what stands behind it something is taken just when it is of both. -/
theorem Skips.exists_then_iff {β γ : Type} {f : Octets → Option (α × Octets)} {m : Octets}
    (h : Skips f) (hx : Spaced x.tokens s m) (hm : Delimited m)
    (g : Octets → Option (β × Octets)) (k : α → β → γ) :
    (∃ c, ((f s).bind fun e => (g e.2).map fun p => (k e.1 p.1, p.2)) = some (c, r)) ↔
      (∃ a, f s = some (a, m)) ∧ ∃ b, g m = some (b, r) := by
  constructor
  · rintro ⟨c, hread⟩
    obtain ⟨⟨a, m'⟩, ha, hmap⟩ := Option.bind_eq_some_iff.mp hread
    obtain rfl : m' = m := h.rest_eq hx hm ha
    obtain ⟨⟨b, r'⟩, hb, heq⟩ := Option.map_eq_some_iff.mp hmap
    obtain ⟨-, rfl⟩ := Prod.mk.inj heq
    exact ⟨⟨a, ha⟩, b, hb⟩
  · rintro ⟨⟨a, ha⟩, b, hb⟩
    exact ⟨k a b, by rw [ha, Option.bind_some, hb]; rfl⟩

/-- The next item and what is behind it. -/
theorem exists_item {first : Bool} {xs : List Tree}
    (h : Spaced (Tree.itemTokens first (x :: xs)) s r) :
    ∃ t ht m, nextItem first s = .ok (some ⟨(), t, ht⟩) ∧ Spaced x.tokens t m ∧
      Spaced (Tree.itemTokens false xs) m r ∧ Delimited m := by
  rw [Tree.itemTokens] at h
  obtain ⟨t, ht, h, hnext⟩ := exists_nextItem h (by simp [Tree.tokens_ne_nil]) fun t ht =>
    Tree.exists_cons_of_spaced (spaced_append_iff.mp ht).choose_spec.1
  obtain ⟨m, hx, hxs⟩ := spaced_append_iff.mp h
  exact ⟨t, ht, m, hnext, hx, hxs, delimited_of_items hxs⟩

/-- The next member and what is behind it. -/
theorem exists_member {first : Bool} {name : NameToken} {key : String}
    {ms : List (NameToken × Tree)} (h : Spaced (Tree.memberTokens first ((name, x) :: ms)) s r)
    (hkey : name.text? = some key) :
    ∃ t ht m, nextName first s = .ok (some ⟨key, t, ht⟩) ∧
      Spaced ([Ascii.colon] :: x.tokens) t m ∧ Spaced (Tree.memberTokens false ms) m r ∧
        Delimited m := by
  rw [Tree.memberTokens] at h
  obtain ⟨t, h, hnext⟩ := exists_nextName h
  rw [hkey] at hnext
  obtain ⟨ht, hnext⟩ := hnext
  obtain ⟨t', hcolon, h⟩ := h
  obtain ⟨m, hx, hms⟩ := spaced_append_iff.mp h
  exact ⟨t, ht, m, hnext, ⟨t', hcolon, hx⟩, hms, delimited_of_members hms⟩

/-- Items are taken just when each has the property. -/
theorem exists_listItems_iff {item : Reader α} {P : Tree → Prop}
    (hskips : Skips fun s => taken? (item s)) (hitem : Judges (fun s => taken? (item s)) P) :
    (xs : List Tree) → (first : Bool) → {s r : Octets} → Spaced (Tree.itemTokens first xs) s r →
      ((∃ as, taken? (listItems item first s) = some (as, r)) ↔ ∀ x ∈ xs, P x)
  | [], first, s, r, h => by
    rw [Tree.itemTokens] at h
    obtain ⟨s', hs, rfl⟩ := h
    refine iff_of_true ⟨[], ?_⟩ (List.forall_mem_nil _)
    exact taken?_listItems_none (nextItem_of_close hs) (taken?_closeList hs)
  | x :: xs, first, s, r, h => by
    obtain ⟨t, ht, m, hnext, hx, hxs, hm⟩ := exists_item h
    rw [taken?_listItems_next hnext, List.forall_mem_cons, ← hitem x t m hx hm,
      ← exists_listItems_iff hskips hitem xs false hxs]
    exact hskips.exists_then_iff hx hm (fun s => taken? (listItems item false s)) List.cons

/-- Where a name stands, its text decides how the members are taken. -/
theorem taken?_foldMembers_cons {σ : Type} (member : σ → String → Reader σ) {first : Bool}
    {name : NameToken} {ms : List (NameToken × Tree)}
    (h : Spaced (Tree.memberTokens first ((name, x) :: ms)) s r) :
    ∃ t m, Spaced ([Ascii.colon] :: x.tokens) t m ∧ Spaced (Tree.memberTokens false ms) m r ∧
      ∀ g, taken? (foldMembers member first g s) = name.text?.bind fun key =>
        (taken? (member g key t)).bind fun e => taken? (foldMembers member false e.1 e.2) := by
  rw [Tree.memberTokens] at h
  obtain ⟨t, h, hnext⟩ := exists_nextName h
  obtain ⟨t', hcolon, h⟩ := h
  obtain ⟨m, hx, hms⟩ := spaced_append_iff.mp h
  refine ⟨t, m, ⟨t', hcolon, hx⟩, hms, fun g => ?_⟩
  cases hname : name.text? with
  | none =>
    rw [hname] at hnext
    obtain ⟨f, hnext⟩ := hnext
    exact taken?_foldMembers_error hnext
  | some key =>
    rw [hname] at hnext
    obtain ⟨ht, hnext⟩ := hnext
    exact taken?_foldMembers_next hnext

theorem taken?_foldMembers_nil {σ : Type} {member : σ → String → Reader σ} {first : Bool}
    (h : Spaced (Tree.memberTokens first []) s r) (g : σ) :
    taken? (foldMembers member first g s) = some (g, r) := by
  rw [Tree.memberTokens] at h
  obtain ⟨s', hs, rfl⟩ := h
  exact taken?_foldMembers_none (nextName_of_close hs) (taken?_closeObject hs)

/-- What stands behind a name is a member for the scanner, and nothing else can be taken of it. -/
theorem SkipsMember.rest_eq {f : Octets → Option (α × Octets)} (h : SkipsMember f)
    (hx : Spaced ([Ascii.colon] :: x.tokens) s r) (hr : Delimited r) {a : α} {r' : Octets}
    (hread : f s = some (a, r')) : r' = r := by
  obtain ⟨t, hcolon, hvalue⟩ := h s a r' hread
  obtain ⟨t', hcolon', hx⟩ := hx
  obtain rfl : t = t' := (List.cons.inj (hcolon.symm.trans hcolon')).2
  have hself : Skips fun u => Scan.value? [] u := fun _ _ _ h => h
  exact hself.rest_eq hx hr hvalue

/-- Members that do not depend on each other are taken just when each has the property. -/
theorem exists_foldMembers_iff {σ : Type} {member : σ → String → Reader σ} {P : Tree → Prop}
    (hskips : ∀ g key, SkipsMember fun s => taken? (member g key s))
    (hmember : ∀ g key, JudgesMember (fun s => taken? (member g key s)) P) :
    (ms : List (NameToken × Tree)) → (first : Bool) → (g : σ) → {s r : Octets} →
      Spaced (Tree.memberTokens first ms) s r →
        ((∃ g', taken? (foldMembers member first g s) = some (g', r)) ↔
          ∀ m ∈ ms, m.1.text?.isSome ∧ P m.2)
  | [], first, g, s, r, h =>
    iff_of_true ⟨g, taken?_foldMembers_nil h g⟩ (List.forall_mem_nil _)
  | (name, x) :: ms, first, g, s, r, h => by
    obtain ⟨t, m, hx, hms, hfold⟩ := taken?_foldMembers_cons member h
    have hm := delimited_of_members hms
    rw [hfold, List.forall_mem_cons]
    cases hname : name.text? with
    | none => simp
    | some key =>
      have hhead : (∃ g', taken? (member g key t) = some (g', m)) ↔ P x :=
        hmember g key x t m hx hm
      rw [Option.bind_some, ← hhead]
      constructor
      · rintro ⟨g', h⟩
        obtain ⟨⟨g₁, t'⟩, hg₁, hrest⟩ := Option.bind_eq_some_iff.mp h
        obtain rfl : t' = m := (hskips g key).rest_eq hx hm hg₁
        have hall := (exists_foldMembers_iff hskips hmember ms false g₁ hms).mp ⟨g', hrest⟩
        exact ⟨⟨by simp, g₁, hg₁⟩, hall⟩
      · rintro ⟨⟨-, g₁, hg₁⟩, hall⟩
        obtain ⟨g', hrest⟩ := (exists_foldMembers_iff hskips hmember ms false g₁ hms).mpr hall
        exact ⟨g', by rw [hg₁, Option.bind_some, hrest]⟩

/-- Where the next item stands, that is what is done with. -/
theorem atItem_of_next {first : Bool} {t : Octets} {u : Unit}
    {ht : t.length < s.length + 1} {close item : Octets → Option (α × Octets)}
    (h : nextItem first s = .ok (some ⟨u, t, ht⟩)) : atItem first close item s = item t := by
  obtain ⟨f, hnext, -⟩ | ⟨r, hnext, -⟩ | ⟨t', ht', hnext, hat⟩ := nextItem_cases first s
  · rw [h] at hnext
    cases hnext
  · rw [h] at hnext
    cases hnext
  · rw [h] at hnext
    cases hnext
    exact hat _ _ _

/-- Where a value stands no list is closed. -/
theorem taken?_closeList_of_items {xs : List Tree} {first : Bool}
    (h : Spaced (Tree.itemTokens first (x :: xs)) s r) : taken? (closeList s) = none := by
  obtain ⟨t, ht, m, hnext, -⟩ := exists_item h
  rw [taken?_closeList_eq]
  split
  · rfl
  · rename_i c r' hs
    rw [if_neg]
    rintro rfl
    rw [nextItem_of_close hs] at hnext
    cases hnext

/-! ### Choices -/

theorem exists_chosen_iff {options : List α} {name : α → String} {key : String} :
    (∃ a, chosen options name key = .ok a) ↔ key ∈ options.map name := by
  unfold chosen
  cases hfind : options.find? (name · = key) with
  | none =>
    refine iff_of_false (fun ⟨_, h⟩ => nomatch h) fun hmem => ?_
    obtain ⟨a, ha, hkey⟩ := List.mem_map.mp hmem
    simpa [hkey] using List.find?_eq_none.mp hfind a ha
  | some a =>
    have hkey : name a = key := by simpa using List.find?_some hfind
    exact iff_of_true ⟨a, rfl⟩ (List.mem_map.mpr ⟨a, List.mem_of_find?_eq_some hfind, hkey⟩)

theorem toOption_eq_some_iff {ε : Type} {e : Except ε α} {a : α} :
    e.toOption = some a ↔ e = .ok a := by
  cases e <;> simp [Except.toOption]

/-- Outside an object a choice is a text that is one of the names. -/
theorem taken?_readChoice_of_text {options : List α} {name : α → String} {c : UInt8} {t : Octets}
    (hs : skipSpace s = c :: t) (hc : c ≠ Ascii.openBrace) :
    taken? (readChoice options name s) = (taken? (readString s)).bind fun e =>
      (chosen options name e.1).toOption.map fun a => (a, e.2) := by
  rw [taken?_readChoice, taken?_readString, hs]
  dsimp only
  split
  · rfl
  · simp

theorem exists_readChoice_of_text {options : List α} {name : α → String} {c : UInt8} {t : Octets}
    (hx : Spaced x.tokens s r) (hr : Delimited r) (hs : skipSpace s = c :: t)
    (hc : c ≠ Ascii.openBrace) : (∃ a, taken? (readChoice options name s) = some (a, r)) ↔
      ∃ key ∈ options.map name, x.scalar? Value.asText? = some key := by
  rw [taken?_readChoice_of_text hs hc, readsScalars_readString.taken?_of_spaced hx hr]
  cases x.scalar? Value.asText? with
  | none => simp
  | some key =>
    simp only [Option.map_some, Option.bind_some, Option.map_eq_some_iff, toOption_eq_some_iff,
      Prod.mk.injEq, and_true, exists_eq_right, Option.some.injEq, exists_eq_right']
    exact exists_chosen_iff

theorem judges_readUnit :
    Judges (fun s => taken? (readUnit s)) fun x => x.scalar? Value.asNull? = some () := by
  intro x s r hx hr
  rw [readsScalars_readUnit.reads_iff hx hr, Option.isSome_iff_exists]
  exact ⟨fun ⟨_, h⟩ => h, fun h => ⟨_, h⟩⟩

/-- In an object a choice is the name of the only member, which is null. -/
theorem exists_readChoice_of_member {options : List α} {name : α → String} {t : Octets}
    {token : NameToken} {ms : List (NameToken × Tree)} (hs : skipSpace s = Ascii.openBrace :: t)
    (hms : Spaced (Tree.memberTokens true ((token, x) :: ms)) t r) :
    (∃ a, taken? (readChoice options name s) = some (a, r)) ↔
      ms = [] ∧ (∃ key ∈ options.map name, token.text? = some key) ∧
        x.scalar? Value.asNull? = some () := by
  rw [Tree.memberTokens] at hms
  obtain ⟨t', ht, hms⟩ := hms
  obtain ⟨m, hx, hms⟩ := spaced_append_iff.mp
    (show Spaced (([Ascii.colon] :: x.tokens) ++ Tree.memberTokens false ms) t' r from hms)
  have hm := delimited_of_members hms
  have hunit : (∃ u, taken? (readMember readUnit t') = some (u, m)) ↔ _ :=
    judges_readUnit.readMember x t' m hx hm
  have hclose := Tree.taken?_closeObject_of_members hms
  rw [NameToken.octets, List.cons_append] at ht
  simp only [taken?_readChoice, hs, ht, if_true, token.taken?_readText_tail]
  constructor
  · rintro ⟨a, h⟩
    obtain ⟨⟨key, t₁⟩, hkey, h⟩ := Option.bind_eq_some_iff.mp h
    obtain ⟨key', htext, heq⟩ := Option.map_eq_some_iff.mp hkey
    obtain ⟨rfl, rfl⟩ := Prod.mk.inj heq
    obtain ⟨a', hchosen, h⟩ := Option.bind_eq_some_iff.mp h
    obtain ⟨⟨u, t₂⟩, hread, h⟩ := Option.bind_eq_some_iff.mp h
    obtain rfl : t₂ = m := (skips_readMember readsScalars_readUnit.skips).rest_eq hx hm hread
    obtain ⟨⟨u', t₃⟩, hend, -⟩ := Option.map_eq_some_iff.mp h
    rw [hclose] at hend
    split at hend
    · rename_i hempty
      have hmem := exists_chosen_iff.mp ⟨a', toOption_eq_some_iff.mp hchosen⟩
      exact ⟨List.isEmpty_iff.mp hempty, ⟨key', hmem, htext⟩, hunit.mp ⟨u, hread⟩⟩
    · cases hend
  · rintro ⟨rfl, ⟨key, hkey, htext⟩, hnull⟩
    obtain ⟨a, hchosen⟩ := exists_chosen_iff.mpr hkey
    obtain ⟨u, hread⟩ := hunit.mpr hnull
    refine ⟨a, ?_⟩
    rw [htext, Option.map_some, Option.bind_some, toOption_eq_some_iff.mpr hchosen,
      Option.bind_some, hread, Option.bind_some, hclose]
    rfl

theorem taken?_readChoice_of_empty (options : List α) (name : α → String) {t : Octets}
    (hs : skipSpace s = Ascii.openBrace :: t) (hms : Spaced (Tree.memberTokens true []) t r) :
    taken? (readChoice options name s) = none := by
  rw [Tree.memberTokens] at hms
  obtain ⟨t', ht, -⟩ := hms
  rw [List.singleton_append] at ht
  simp only [taken?_readChoice, hs, ht]
  exact if_neg (by decide)

theorem judges_readChoice (options : List α) (name : α → String) :
    Judges (fun s => taken? (readChoice options name s)) (Tree.Chooses (options.map name)) := by
  intro x s r hx hr
  dsimp only
  unfold Tree.Chooses
  obtain ⟨token, c, t, rfl, hs, -, hc⟩ | ⟨xs, t, rfl, hs, -⟩ | ⟨ms, t, rfl, hs, hms⟩ :=
    Tree.kinds_of_spaced hx
  · rw [exists_readChoice_of_text hx hr hs hc]
    exact (or_iff_left fun ⟨_, _, h, _⟩ => by cases h).symm
  · rw [exists_readChoice_of_text hx hr hs (by decide)]
    exact (or_iff_left fun ⟨_, _, h, _⟩ => by cases h).symm
  · rw [or_iff_right fun ⟨_, _, h⟩ => by cases h]
    cases ms with
    | nil =>
      rw [taken?_readChoice_of_empty options name hs hms]
      exact iff_of_false (fun ⟨_, h⟩ => nomatch h) fun ⟨_, _, h, _⟩ => by cases h
    | cons e ms =>
      rw [exists_readChoice_of_member hs hms]
      constructor
      · rintro ⟨rfl, hname, hnull⟩
        exact ⟨e.1, e.2, rfl, hname, hnull⟩
      · rintro ⟨token, y, h, hname, hnull⟩
        cases h
        exact ⟨rfl, hname, hnull⟩

end

end FleetPlan.Json
