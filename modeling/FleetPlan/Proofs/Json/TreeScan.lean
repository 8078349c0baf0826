/-
The scanner takes trees.

Scalars and names of a tree are what the scanner passes over, so it takes every writing of
a tree and stops behind it.  The other way about, wherever the scanner goes over a value,
some tree was written there.  Hence the texts that can be payloads are the writings of
trees, and the payload is the same writing without the space around it.
-/
import FleetPlan.Proofs.Json.Shape
import FleetPlan.Proofs.Json.Tree

namespace FleetPlan.Json

namespace Scan

variable {stack : List Frame} {frame : Frame} {first : Bool} {s r : Octets} {e : Unit × Octets}

theorem value?_skipSpace (stack : List Frame) (s : Octets) :
    value? stack (skipSpace s) = value? stack s := by
  rw [value?_eq, value?_eq, skipSpace_skipSpace]

/-- An item or a member, and the scan behind it. -/
def item? (frame : Frame) (stack : List Frame) (s : Octets) : Option (Unit × Octets) :=
  (taken? (beginItem frame s)).bind fun e => value? (frame :: stack) e.2

theorem item?_list (stack : List Frame) (s : Octets) :
    item? .list stack s = value? (.list :: stack) s := rfl

theorem item?_skipSpace (frame : Frame) (stack : List Frame) (s : Octets) :
    item? frame stack (skipSpace s) = item? frame stack s := by
  cases frame with
  | list => exact value?_skipSpace _ s
  | object =>
    unfold item?
    rw [taken?_beginItem_object, taken?_beginItem_object, skipSpace_skipSpace]

/-- The scan inside a container, from behind its opening bracket or from behind an item on. -/
def loop? (frame : Frame) (stack : List Frame) (first : Bool) (s : Octets) :
    Option (Unit × Octets) :=
  if first then inside? frame stack s else after? (frame :: stack) s

/-- Inside a container there is its end, or what parts items and another item. -/
theorem loop?_eq (frame : Frame) (stack : List Frame) (first : Bool) (s : Octets) :
    loop? frame stack first s = match skipSpace s with
      | [] => none
      | c :: t =>
        if c = frame.closer then after? stack t
        else if first then item? frame stack s
        else if c = Ascii.comma then item? frame stack t
        else none := by
  unfold loop?
  cases first with
  | true =>
    rw [if_pos rfl, inside?, ← item?_skipSpace]
    cases skipSpace s <;> rfl
  | false =>
    rw [if_neg (by decide), after?_cons]
    cases skipSpace s with
    | nil => rfl
    | cons c t =>
      dsimp only
      by_cases hcomma : c = Ascii.comma
      · have hcloser : c ≠ frame.closer := by
          rw [hcomma]
          cases frame <;> decide
        rw [if_pos hcomma, if_neg hcloser, if_neg (by decide), if_pos hcomma]
        rfl
      · simp [hcomma]

theorem loop?_close (h : skipSpace s = frame.closer :: r) :
    loop? frame stack first s = after? stack r := by
  rw [loop?_eq, h]
  exact if_pos rfl

theorem loop?_next {ts : List Octets} (frame : Frame) (stack : List Frame)
    (h : Spaced (Tree.separators first ++ ts) s r)
    (hhead : ∀ s, Spaced ts s r → ∃ c t, skipSpace s = c :: t ∧ c ≠ frame.closer) :
    ∃ s', Spaced ts s' r ∧ loop? frame stack first s = item? frame stack s' := by
  rw [spaced_separators_iff] at h
  cases first with
  | true =>
    obtain ⟨c, t, hs, hc⟩ := hhead s h
    refine ⟨s, h, ?_⟩
    rw [loop?_eq, hs]
    dsimp only
    rw [if_neg hc, if_pos rfl]
  | false =>
    obtain ⟨s', hs, h⟩ := h
    have hcloser : Ascii.comma ≠ frame.closer := by cases frame <;> decide
    refine ⟨s', h, ?_⟩
    rw [loop?_eq, hs]
    dsimp only
    rw [if_neg hcloser, if_neg (by decide), if_pos rfl]

/-- How a scan inside a container goes on. -/
theorem loop?_cases (h : loop? frame stack first s = some e) :
    (∃ t, skipSpace s = frame.closer :: t ∧ after? stack t = some e) ∨
      ∃ s', (s' = s ∨ s'.length < s.length) ∧ item? frame stack s' = some e ∧
        ∀ ts r, Spaced ts s' r → Spaced (Tree.separators first ++ ts) s r := by
  rw [loop?_eq] at h
  cases hs : skipSpace s with
  | nil =>
    rw [hs] at h
    cases h
  | cons c t =>
    rw [hs] at h
    dsimp only at h
    by_cases hcloser : c = frame.closer
    · rw [if_pos hcloser] at h
      exact .inl ⟨t, hcloser ▸ rfl, h⟩
    rw [if_neg hcloser] at h
    cases first with
    | true =>
      rw [if_pos rfl] at h
      exact .inr ⟨s, .inl rfl, h, fun ts r hts => hts⟩
    | false =>
      rw [if_neg (by decide)] at h
      by_cases hcomma : c = Ascii.comma
      · rw [if_pos hcomma] at h
        refine .inr ⟨t, .inr (length_lt_of_skipSpace hs), h, fun ts r hts => ?_⟩
        exact spaced_separators_iff.mpr ⟨t, hcomma ▸ hs, hts⟩
      · rw [if_neg hcomma] at h
        cases h

/-! ### Names -/

theorem taken?_beginItem_of_spaced {name : NameToken} {ts : List Octets}
    (h : Spaced (name.octets :: [Ascii.colon] :: ts) s r) :
    ∃ s', taken? (beginItem .object s) = some ((), s') ∧ Spaced ts s' r := by
  obtain ⟨s₁, hs, s₂, hs₁, h⟩ := h
  refine ⟨s₂, ?_, h⟩
  rw [taken?_beginItem_object, hs, NameToken.octets, List.cons_append]
  dsimp only
  rw [if_pos rfl, taken?_skipText_append name.scanned, Option.bind_some, List.nil_append, colon?, hs₁]
  rfl

theorem exists_name (h : taken? (beginItem .object s) = some e) :
    ∃ name : NameToken, e.2.length < s.length ∧
      ∀ ts r, Spaced ts e.2 r → Spaced (name.octets :: [Ascii.colon] :: ts) s r := by
  rw [taken?_beginItem_object] at h
  cases hs : skipSpace s with
  | nil =>
    rw [hs] at h
    cases h
  | cons c w =>
    rw [hs] at h
    dsimp only at h
    split at h
    · rename_i hc
      obtain ⟨⟨u, x⟩, hskip, hcolon⟩ := Option.bind_eq_some_iff.mp h
      dsimp only at hcolon
      obtain ⟨tail, rfl, hlocal⟩ := local_skipText w u x hskip
      have hname := hlocal [] (.inr (by simp [Delimited]))
      rw [List.append_nil] at hname
      unfold colon? at hcolon
      cases hx : skipSpace x with
      | nil =>
        rw [hx] at hcolon
        cases hcolon
      | cons d y =>
        rw [hx] at hcolon
        dsimp only at hcolon
        split at hcolon
        · rename_i hd
          cases hcolon
          have hlt := length_lt_of_skipSpace hs
          have hlt' := length_lt_of_skipSpace hx
          rw [List.length_append] at hlt
          refine ⟨⟨tail, hname⟩, ?_, fun ts r hts => ?_⟩
          · dsimp only
            omega
          · exact ⟨x, by rw [hs, hc]; rfl, y, by rw [hx, hd]; rfl, hts⟩
        · cases hcolon
    · cases h

end Scan

namespace Tree

open Scan

mutual

/-- **The scanner takes every writing of a tree and stops behind it.** -/
theorem value?_of_spaced : (x : Tree) → ∀ (stack : List Frame) {s r : Octets},
    Spaced x.tokens s r → Delimited r → Scan.value? stack s = after? stack r
  | .scalar token, stack, s, r, h, hr => by
    rw [tokens] at h
    obtain ⟨s', hs, rfl⟩ := h
    obtain ⟨c, w, hw, -, hopened, -⟩ := token.exists_cons
    obtain ⟨v, hv, hlocal⟩ := local_skipScalar _ _ _ token.scanned
    rw [List.append_nil] at hv
    have hscalar := hlocal s' (.inr hr)
    rw [← hv, hw, List.cons_append] at hscalar
    rw [value?_eq, hs, hw, List.cons_append]
    simp only [hopened, hscalar, Option.bind_some]
  | .list items, stack, s, r, h, _ => by
    rw [tokens] at h
    obtain ⟨s', hs, h⟩ := h
    have hopened : Frame.opened? Ascii.openBracket = some .list := by decide
    rw [value?_eq, hs, List.singleton_append]
    simp only [hopened]
    exact loop?_of_items items true h
  | .object members, stack, s, r, h, _ => by
    rw [tokens] at h
    obtain ⟨s', hs, h⟩ := h
    have hopened : Frame.opened? Ascii.openBrace = some .object := by decide
    rw [value?_eq, hs, List.singleton_append]
    simp only [hopened]
    exact loop?_of_members members true h

theorem loop?_of_items : (xs : List Tree) → ∀ (first : Bool) {stack : List Frame} {s r : Octets},
    Spaced (itemTokens first xs) s r → loop? .list stack first s = after? stack r
  | [], first, stack, s, r, h => by
    rw [itemTokens] at h
    obtain ⟨s', hs, rfl⟩ := h
    exact loop?_close hs
  | x :: xs, first, stack, s, r, h => by
    rw [itemTokens] at h
    obtain ⟨s', h, hloop⟩ := loop?_next .list stack h fun t ht =>
      exists_cons_of_spaced (spaced_append_iff.mp ht).choose_spec.1
    obtain ⟨m, hx, hxs⟩ := spaced_append_iff.mp h
    rw [hloop, item?_list, value?_of_spaced x _ hx (delimited_of_items hxs)]
    exact loop?_of_items xs false hxs

theorem loop?_of_members : (ms : List (NameToken × Tree)) → ∀ (first : Bool)
    {stack : List Frame} {s r : Octets},
    Spaced (memberTokens first ms) s r → loop? .object stack first s = after? stack r
  | [], first, stack, s, r, h => by
    rw [memberTokens] at h
    obtain ⟨s', hs, rfl⟩ := h
    exact loop?_close hs
  | (name, x) :: ms, first, stack, s, r, h => by
    rw [memberTokens] at h
    obtain ⟨s', h, hloop⟩ := loop?_next .object stack h fun t ht => by
      obtain ⟨t', ht, -⟩ := ht
      exact ⟨Ascii.quote, name.tail ++ t', ht, by decide⟩
    obtain ⟨s'', hbegin, h⟩ := taken?_beginItem_of_spaced h
    obtain ⟨m, hx, hms⟩ := spaced_append_iff.mp h
    rw [hloop, item?, hbegin, Option.bind_some, value?_of_spaced x _ hx (delimited_of_members hms)]
    exact loop?_of_members ms false hms

end

/-! ### What the scanner takes is a tree -/

/-- A scalar that was passed over. -/
theorem exists_scalar {s t : Octets} {u : Unit} (h : taken? (skipScalar s) = some (u, t)) :
    ∃ token : ScalarToken, s = token.octets ++ t := by
  obtain ⟨w, hw, hlocal⟩ := local_skipScalar s u t h
  have hscanned := hlocal [] (.inr (by simp [Delimited]))
  rw [List.append_nil] at hscanned
  exact ⟨⟨w, hscanned⟩, hw⟩

/-! Of each part of a scan, a tree was written where the scan went over it. -/

def ScannedValue (s : Octets) : Prop := ∀ stack e, Scan.value? stack s = some e →
  ∃ x m, Spaced (tokens x) s m ∧ m.length < s.length ∧ after? stack m = some e

def ScannedItems (s : Octets) : Prop := ∀ stack first e, loop? .list stack first s = some e →
  ∃ xs m, Spaced (itemTokens first xs) s m ∧ m.length < s.length ∧ after? stack m = some e

def ScannedMembers (s : Octets) : Prop := ∀ stack first e, loop? .object stack first s = some e →
  ∃ ms m, Spaced (memberTokens first ms) s m ∧ m.length < s.length ∧ after? stack m = some e

variable {s : Octets}

theorem scannedValue (hitems : ∀ t : Octets, t.length < s.length → ScannedItems t)
    (hmembers : ∀ t : Octets, t.length < s.length → ScannedMembers t) : ScannedValue s := by
  intro stack e h
  rw [value?_eq] at h
  cases hs : skipSpace s with
  | nil =>
    rw [hs] at h
    cases h
  | cons c r =>
    have hr := length_lt_of_skipSpace hs
    rw [hs] at h
    dsimp only at h
    cases hopened : Frame.opened? c with
    | none =>
      rw [hopened] at h
      obtain ⟨⟨u, t⟩, hscalar, hafter⟩ := Option.bind_eq_some_iff.mp h
      have ht : t.length < r.length + 1 := (taken?_eq_some_iff.mp hscalar).1
      obtain ⟨token, htoken⟩ := exists_scalar hscalar
      refine ⟨.scalar token, t, ?_, by omega, hafter⟩
      rw [tokens]
      exact ⟨t, hs.trans htoken, rfl⟩
    | some frame =>
      rw [hopened] at h
      unfold Frame.opened? at hopened
      split at hopened
      · rename_i hc
        cases hopened
        obtain ⟨xs, m, hxs, hm, hafter⟩ := hitems r hr stack true e h
        refine ⟨.list xs, m, ?_, by omega, hafter⟩
        rw [tokens]
        exact ⟨r, hc ▸ hs, hxs⟩
      · split at hopened
        · rename_i hc
          cases hopened
          obtain ⟨ms, m, hms, hm, hafter⟩ := hmembers r hr stack true e h
          refine ⟨.object ms, m, ?_, by omega, hafter⟩
          rw [tokens]
          exact ⟨r, hc ▸ hs, hms⟩
        · cases hopened

theorem scannedItems (hvalue : ∀ t : Octets, t = s ∨ t.length < s.length → ScannedValue t)
    (hitems : ∀ t : Octets, t.length < s.length → ScannedItems t) : ScannedItems s := by
  intro stack first e h
  obtain ⟨t, hs, hafter⟩ | ⟨t, ht, hitem, hspaced⟩ := loop?_cases h
  · refine ⟨[], t, ?_, length_lt_of_skipSpace hs, hafter⟩
    rw [itemTokens]
    exact ⟨t, hs, rfl⟩
  · have hle : t.length ≤ s.length := by
      rcases ht with rfl | hlt <;> omega
    rw [item?_list] at hitem
    obtain ⟨x, m, hx, hm, hafter⟩ := hvalue t ht _ e hitem
    obtain ⟨xs, m', hxs, hm', hafter⟩ := hitems m (by omega) stack false e hafter
    refine ⟨x :: xs, m', ?_, by omega, hafter⟩
    rw [itemTokens]
    exact hspaced _ _ (spaced_append_iff.mpr ⟨m, hx, hxs⟩)

theorem scannedMembers (hvalue : ∀ t : Octets, t.length < s.length → ScannedValue t)
    (hmembers : ∀ t : Octets, t.length < s.length → ScannedMembers t) : ScannedMembers s := by
  intro stack first e h
  obtain ⟨t, hs, hafter⟩ | ⟨t, ht, hitem, hspaced⟩ := loop?_cases h
  · refine ⟨[], t, ?_, length_lt_of_skipSpace hs, hafter⟩
    rw [memberTokens]
    exact ⟨t, hs, rfl⟩
  · have hle : t.length ≤ s.length := by
      rcases ht with rfl | hlt <;> omega
    obtain ⟨⟨u, t'⟩, hbegin, hitem⟩ := Option.bind_eq_some_iff.mp hitem
    obtain ⟨name, ht', hname⟩ := exists_name hbegin
    dsimp only at ht' hname hitem
    obtain ⟨x, m, hx, hm, hafter⟩ := hvalue t' (by omega) _ e hitem
    obtain ⟨ms, m', hms, hm', hafter⟩ := hmembers m (by omega) stack false e hafter
    refine ⟨(name, x) :: ms, m', ?_, by omega, hafter⟩
    rw [memberTokens]
    exact hspaced _ _ (hname _ _ (spaced_append_iff.mpr ⟨m, hx, hms⟩))

theorem scanned (n : Nat) : ∀ s : Octets, s.length = n →
    ScannedValue s ∧ ScannedItems s ∧ ScannedMembers s := by
  induction n using Nat.strongRecOn with
  | ind n ih =>
    intro s hn
    have hless (t : Octets) (ht : t.length < s.length) := ih t.length (hn ▸ ht) t rfl
    have hvalue : ScannedValue s :=
      scannedValue (fun t ht => (hless t ht).2.1) fun t ht => (hless t ht).2.2
    refine ⟨hvalue, scannedItems ?_ fun t ht => (hless t ht).2.1,
      scannedMembers (fun t ht => (hless t ht).1) fun t ht => (hless t ht).2.2⟩
    rintro t (rfl | ht)
    · exact hvalue
    · exact (hless t ht).1

end Tree

/-! ### Payloads -/

namespace Payload

variable {text : String} {p : Payload}

/-- **A text that can be a payload is the writing of a tree.** -/
theorem exists_tree_of_ofText (h : ofText text = .ok p) :
    ∃ x : Tree, x.Writes (Text.octets text) := by
  obtain ⟨r, hread, hr⟩ := exists_rest_of_ofText h
  have hskip := (taken?_readPayload_iff.mp hread).2
  have hvalue : Scan.value? [] (Text.octets text) = some ((), r) :=
    (Scan.value?_skipSpace [] _).symm.trans hskip
  obtain ⟨x, m, hx, -, hafter⟩ := (Tree.scanned _ _ rfl).1 [] _ hvalue
  rw [Scan.after?_nil] at hafter
  cases hafter
  exact ⟨x, r, hx, hr⟩

/-- The payload is the same writing without the space around it. -/
theorem spaced_of_ofText (h : ofText text = .ok p) {x : Tree} (hx : x.Writes (Text.octets text)) :
    Spaced x.tokens (Text.octets p.text) [] := by
  obtain ⟨r, hspaced, hr⟩ := hx
  obtain ⟨r', hread, -⟩ := exists_rest_of_ofText h
  obtain ⟨hstart, hskip⟩ := taken?_readPayload_iff.mp hread
  -- The scanner stops behind the tree, and this is where the payload ends.
  have hvalue := Tree.value?_of_spaced x [] hspaced (delimited_of_blank hr)
  rw [Scan.after?_nil, ← Scan.value?_skipSpace] at hvalue
  obtain rfl : r' = r := (Prod.mk.inj (Option.some.inj (hskip.symm.trans hvalue))).2
  obtain ⟨w, hw, htokens⟩ := exists_of_spaced x.solid_tokens (x.spaced_skipSpace hspaced)
  rwa [← List.append_cancel_right (hstart.symm.trans hw)] at htokens

end Payload

end FleetPlan.Json
