/-
Lists and objects are read back from any layout.

`Spelled` says that a reader finds a value in some octets, wherever these stand.  The
loops over items and members then find all of them: each loop takes what one step
takes, and a step leaves the loop in front of the next item or of the closing bracket.
The other way about, what a loop gathers came from its reader item by item.
-/
import FleetPlan.Json.Container
import FleetPlan.Proofs.Json.Layout

namespace FleetPlan.Json

/-- A reader finds a value in these octets, with space before and an end behind them. -/
structure Spelled {α : Type} (read : Reader α) (a : α) (w : Octets) : Prop where
  head : ∃ c t, w = c :: t ∧ Ascii.isSpace c = false ∧ c ≠ Ascii.closeBracket
  taken : ∀ ws r, Blank ws → Delimited r → taken? (read (ws ++ (w ++ r))) = some (a, r)

theorem delimited_cons {c : UInt8}
    (h : c = Ascii.comma ∨ c = Ascii.closeBracket ∨ c = Ascii.closeBrace) (r : Octets) :
    Delimited (c :: r) := by
  intro d hd
  obtain rfl : c = d := by simpa using hd
  exact .inr h

theorem Blank.delimited {ws : Octets} (h : Blank ws) {r : Octets} (hr : Delimited r) :
    Delimited (ws ++ r) := by
  cases ws with
  | nil => exact hr
  | cons c ws =>
    intro d hd
    obtain rfl : c = d := by simpa using hd
    exact .inl (h c List.mem_cons_self)

namespace Layout

variable {L : Layout} {level : Nat}

theorem items_cons_append (first : Bool) (w : Octets) (ws : List Octets) (r : Octets) :
    L.items level first (w :: ws) ++ r =
      separator first ++ (L.newline level ++ (w ++ (L.items level false ws ++ r))) := by
  simp [items]

/-- Behind an item stands the next one's comma, or what closes the container. -/
theorem delimited_items {ws : List Octets} {r : Octets} (hr : Delimited r) :
    Delimited (L.items level false ws ++ r) := by
  cases ws with
  | nil => exact hr
  | cons w ws => exact delimited_cons (.inl rfl) _

end Layout

/-! ### Steps of the loops -/

/-- An item or a name begins so, behind its comma if it is not the first. -/
def Begins (first : Bool) (s : Octets) (c : UInt8) (t : Octets) : Prop :=
  if first then skipSpace s = c :: t
  else ∃ s', skipSpace s = Ascii.comma :: s' ∧ skipSpace s' = c :: t

theorem begins_separator (first : Bool) {ws : Octets} (hws : Blank ws) {c : UInt8}
    (hspace : Ascii.isSpace c = false) (t : Octets) :
    Begins first (Layout.separator first ++ (ws ++ c :: t)) c t := by
  cases first with
  | true => exact skipSpace_blank_cons hws hspace t
  | false => exact ⟨ws ++ c :: t, skipSpace_cons (by decide) _, skipSpace_blank_cons hws hspace t⟩

section

variable {first : Bool} {s r t : Octets} {c : UInt8}

/-- In front of the closing bracket there is no item. -/
theorem nextItem_of_close (h : skipSpace s = Ascii.closeBracket :: r) :
    nextItem first s = .ok none := by
  unfold nextItem
  rw [withNext_eq h]
  exact if_pos rfl

theorem taken?_closeList (h : skipSpace s = Ascii.closeBracket :: r) :
    taken? (closeList s) = some ((), r) := by
  unfold closeList
  rw [withNext_eq h, if_pos rfl]
  rfl

theorem nextItem_of_begins (h : Begins first s c t) (hclose : c ≠ Ascii.closeBracket) :
    ∃ ht, nextItem first s = .ok (some ⟨(), c :: t, ht⟩) := by
  unfold nextItem
  cases first with
  | true =>
    rw [withNext_eq h, if_neg hclose, if_pos rfl]
    exact ⟨_, rfl⟩
  | false =>
    obtain ⟨s', hcomma, hs'⟩ := h
    rw [withNext_eq hcomma, if_neg (by decide), if_neg (by decide), if_pos rfl, withNext_eq hs',
      if_neg hclose]
    exact ⟨_, rfl⟩

/-- In front of the closing brace there is no name. -/
theorem nextName_of_close (h : skipSpace s = Ascii.closeBrace :: r) :
    nextName first s = .ok none := by
  unfold nextName
  rw [withNext_eq h]
  exact if_pos rfl

theorem taken?_closeObject (h : skipSpace s = Ascii.closeBrace :: r) :
    taken? (closeObject s) = some ((), r) := by
  unfold closeObject
  rw [withNext_eq h, if_pos rfl]
  rfl

/-- A name is the text behind the quote. -/
theorem nextName_of_begins (h : Begins first s Ascii.quote t) :
    ∃ hle, nextName first s = (readText t).map fun p => some (p.weaken hle) := by
  unfold nextName
  cases first with
  | true =>
    rw [withNext_eq h, if_neg (by decide), if_pos rfl, if_pos rfl]
    exact ⟨_, rfl⟩
  | false =>
    obtain ⟨s', hcomma, hs'⟩ := h
    rw [withNext_eq hcomma, if_neg (by decide), if_neg (by decide), if_pos rfl, withNext_eq hs',
      if_pos rfl]
    exact ⟨_, rfl⟩

theorem readColon_of_colon (h : skipSpace s = Ascii.colon :: t) :
    ∃ ht, readColon s = .ok ⟨(), t, ht⟩ := by
  unfold readColon
  rw [withNext_eq h, if_pos rfl]
  exact ⟨_, rfl⟩

/-- A member's value is read behind the colon. -/
theorem taken?_readMember_of_colon {α : Type} {read : Reader α}
    (h : skipSpace s = Ascii.colon :: t) : taken? (readMember read s) = taken? (read t) := by
  obtain ⟨ht, hcolon⟩ := readColon_of_colon h
  unfold readMember
  rw [hcolon]
  exact taken?_map_after

end

/-! ### Lists -/

section

variable {α : Type} {item : Reader α} {L : Layout} {level : Nat}

theorem taken?_listItems_none {first : Bool} {s r : Octets} (hnext : nextItem first s = .ok none)
    (hclose : taken? (closeList s) = some ((), r)) :
    taken? (listItems item first s) = some ([], r) := by
  rw [listItems, hnext]
  dsimp only
  rw [taken?_map_map, hclose]
  rfl

theorem taken?_listItems_some {first : Bool} {s t t' : Octets} {a : α} {u : Unit}
    {h : t.length < s.length + 1} (hnext : nextItem first s = .ok (some ⟨u, t, h⟩))
    (hitem : taken? (item t) = some (a, t')) :
    taken? (listItems item first s) =
      (taken? (listItems item false t')).map fun e => (a :: e.1, e.2) := by
  obtain ⟨ht', hitem⟩ := taken?_eq_some_iff.mp hitem
  rw [listItems, hnext]
  dsimp only
  rw [hitem]
  exact taken?_map_map_weaken

/-- **Items in any layout are read one after another.** -/
theorem taken?_listItems {xs : List α} {f : α → Octets} (hitems : ∀ x ∈ xs, Spelled item x (f x))
    {ws : Octets} (hws : Blank ws) (first : Bool) (r : Octets) :
    taken? (listItems item first
      (L.items level first (xs.map f) ++ (ws ++ Ascii.closeBracket :: r))) = some (xs, r) := by
  induction xs generalizing first with
  | nil =>
    have hclose : skipSpace (ws ++ Ascii.closeBracket :: r) = Ascii.closeBracket :: r :=
      skipSpace_blank_cons hws (by decide) r
    exact taken?_listItems_none (nextItem_of_close hclose) (taken?_closeList hclose)
  | cons x xs ih =>
    have hx := hitems x List.mem_cons_self
    obtain ⟨c, t, hw, hspace, hclose⟩ := hx.head
    have hend : Delimited (L.items level false (xs.map f) ++ (ws ++ Ascii.closeBracket :: r)) :=
      Layout.delimited_items (hws.delimited (delimited_cons (.inr (.inl rfl)) r))
    have hitem := hx.taken [] _ blank_nil hend
    obtain ⟨h, hnext⟩ := nextItem_of_begins (begins_separator first (L.blank_newline level) hspace
      (t ++ (L.items level false (xs.map f) ++ (ws ++ Ascii.closeBracket :: r)))) hclose
    rw [hw, List.nil_append, List.cons_append] at hitem
    rw [List.map_cons, Layout.items_cons_append, hw, List.cons_append,
      taken?_listItems_some hnext hitem, ih fun y hy => hitems y (List.mem_cons_of_mem _ hy)]
    rfl

end

/-! ### Objects -/

section

variable {α σ : Type} {L : Layout} {level : Nat}

/-- The next name is found behind its comma and the space in front of it. -/
theorem nextName_name (first : Bool) {ws : Octets} (hws : Blank ws) (name : String) (t : Octets) :
    ∃ h, nextName first
      (Layout.separator first ++ (ws ++ (Text.octets (writeText name) ++ t))) =
        .ok (some ⟨name, t, h⟩) := by
  obtain ⟨ht, hread⟩ := taken?_eq_some_iff.mp (taken?_readText name t)
  obtain ⟨hle, hname⟩ :=
    nextName_of_begins (begins_separator first hws (by decide) (textTail name ++ t))
  rw [octets_writeText, List.cons_append, hname, hread]
  exact ⟨_, rfl⟩

theorem taken?_readMember {read : Reader α} {a : α} {w : Octets} (h : Spelled read a w)
    {gap r : Octets} (hgap : Blank gap) (hr : Delimited r) :
    taken? (readMember read (Ascii.colon :: (gap ++ (w ++ r)))) = some (a, r) :=
  (taken?_readMember_of_colon (skipSpace_cons (by decide) _)).trans (h.taken gap r hgap hr)

/--
The members are gathered one after another.  Each is read from behind its name, with
the layout's space before its value.
-/
inductive Gathers (L : Layout) (member : σ → String → Octets → Option (σ × Octets)) :
    σ → List (String × Octets) → σ → Prop
  | nil (g : σ) : Gathers L member g [] g
  | cons {g g' g'' : σ} {name : String} {w : Octets} {es : List (String × Octets)}
      (h : ∀ r, Delimited r → member g name (Ascii.colon :: (L.gap ++ (w ++ r))) = some (g', r))
      (rest : Gathers L member g' es g'') : Gathers L member g ((name, w) :: es) g''

theorem Gathers.mono {member member' : σ → String → Octets → Option (σ × Octets)} {g g' : σ}
    {es : List (String × Octets)} (h : Gathers L member g es g')
    (himp : ∀ g name s e, member g name s = some e → member' g name s = some e) :
    Gathers L member' g es g' := by
  induction h with
  | nil g => exact .nil g
  | cons h _ ih => exact .cons (fun r hr => himp _ _ _ _ (h r hr)) ih

variable {member : σ → String → Reader σ}

theorem taken?_foldMembers_none {first : Bool} {g : σ} {s r : Octets}
    (hnext : nextName first s = .ok none) (hclose : taken? (closeObject s) = some ((), r)) :
    taken? (foldMembers member first g s) = some (g, r) := by
  rw [foldMembers, hnext]
  dsimp only
  rw [taken?_map_map, hclose]
  rfl

theorem taken?_foldMembers_some {first : Bool} {g g' : σ} {s t t' : Octets} {name : String}
    {h : t.length < s.length} (hnext : nextName first s = .ok (some ⟨name, t, h⟩))
    (hmember : taken? (member g name t) = some (g', t')) :
    taken? (foldMembers member first g s) = taken? (foldMembers member false g' t') := by
  obtain ⟨ht', hmember⟩ := taken?_eq_some_iff.mp hmember
  rw [foldMembers, hnext]
  dsimp only
  rw [hmember]
  exact taken?_map_weaken

/-- **Members in any layout are gathered one after another.** -/
theorem taken?_foldMembers {g g' : σ} {es : List (String × Octets)}
    (hgathers : Gathers L (fun g name s => taken? (member g name s)) g es g') {ws : Octets}
    (hws : Blank ws) (first : Bool) (r : Octets) :
    taken? (foldMembers member first g
      (L.items level first (es.map L.member) ++ (ws ++ Ascii.closeBrace :: r))) = some (g', r) := by
  induction hgathers generalizing first with
  | nil g =>
    have hclose : skipSpace (ws ++ Ascii.closeBrace :: r) = Ascii.closeBrace :: r :=
      skipSpace_blank_cons hws (by decide) r
    exact taken?_foldMembers_none (nextName_of_close hclose) (taken?_closeObject hclose)
  | @cons g g' g'' name w es h rest ih =>
    have hend : Delimited
        (L.items level false (es.map L.member) ++ (ws ++ Ascii.closeBrace :: r)) :=
      Layout.delimited_items (hws.delimited (delimited_cons (.inr (.inr rfl)) r))
    obtain ⟨hlt, hnext⟩ := nextName_name first (L.blank_newline level) name
      (Ascii.colon :: (L.gap ++ (w ++
        (L.items level false (es.map L.member) ++ (ws ++ Ascii.closeBrace :: r)))))
    have hinput : L.items level first (((name, w) :: es).map L.member) ++
        (ws ++ Ascii.closeBrace :: r) =
        Layout.separator first ++ (L.newline level ++ (Text.octets (writeText name) ++
          Ascii.colon :: (L.gap ++ (w ++
            (L.items level false (es.map L.member) ++ (ws ++ Ascii.closeBrace :: r)))))) := by
      rw [List.map_cons, Layout.items_cons_append, Layout.member]
      simp
    rw [hinput, taken?_foldMembers_some hnext (h _ hend)]
    exact ih false

end

end FleetPlan.Json
