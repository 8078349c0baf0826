/-
What a tree says.

`Tree.value?` is the value of a tree, without regard to how the tree is written: scalars
are decoded one by one, items and members are put together, and there is no value when a
container stands too deep or a scalar or a name says nothing.  Reading a writing of the
tree finds this value and stops behind the tree, so all writings of a tree are read alike.
-/
import FleetPlan.Proofs.Dict
import FleetPlan.Proofs.Json.Container
import FleetPlan.Proofs.Json.Levels
import FleetPlan.Proofs.Json.Tree

namespace FleetPlan.Json

open Scan (Frame)

/-! ### Scalars -/

namespace Numeral

/-- What is read does not depend on the fault for a text that ends too soon. -/
theorem taken?_read_cut (cut cut' : Fault) (s : Octets) :
    taken? (read cut s) = taken? (read cut' s) := by
  have hdigits (s : Octets) : taken? (someDigits cut s) = taken? (someDigits cut' s) := by
    rw [taken?_someDigits, taken?_someDigits]
  have hwhole (s : Octets) : taken? (wholePart cut s) = taken? (wholePart cut' s) := by
    cases s with
    | nil => rfl
    | cons c r => rw [taken?_wholePart_cons, taken?_wholePart_cons, hdigits]
  have hfraction (s : Octets) : taken? (fractionPart cut s) = taken? (fractionPart cut' s) := by
    cases s with
    | nil => rfl
    | cons c r => rw [taken?_fractionPart_cons, taken?_fractionPart_cons, hdigits]
  have hexponent (s : Octets) : taken? (exponentPart cut s) = taken? (exponentPart cut' s) := by
    cases s with
    | nil => rfl
    | cons c r =>
      rw [taken?_exponentPart_cons, taken?_exponentPart_cons]
      cases r with
      | nil => rfl
      | cons d r => rw [exponentDigits, exponentDigits, hdigits, hdigits]
  have hbody (negative : Bool) (s : Octets) : readBody cut negative s = readBody cut' negative s := by
    simp only [readBody, hwhole, hfraction, hexponent]
  rw [taken?_read, taken?_read, hbody, hbody]

end Numeral

theorem taken?_readNumber_eq (s : Octets) :
    taken? (readNumber s) = (taken? (Numeral.read .endsInValue s)).bind fun e =>
      e.1.number.toOption.map fun n => (n, e.2) := by
  unfold readNumber
  cases Numeral.read .endsInValue s with
  | error f => rfl
  | ok p =>
    simp only [bind, Except.bind, taken?_ok, Option.bind_some]
    cases p.value.number <;> rfl

/-- A numeral that is passed over is read alike in front of everything that ends a value. -/
theorem taken?_readNumber_append {w r : Octets} {x : Numeral}
    (h : taken? (Numeral.read .badNumber w) = some (x, [])) (hr : Delimited r) :
    taken? (readNumber (w ++ r)) = (taken? (readNumber w)).map fun e => (e.1, r) := by
  rw [Numeral.taken?_read_cut .badNumber .endsInValue] at h
  obtain ⟨v, hv, hlocal⟩ := Numeral.local_read w x [] h
  rw [List.append_nil] at hv
  subst hv
  have hread : taken? (Numeral.read .endsInValue (w ++ r)) = some (x, r) := hlocal r (.inr hr)
  rw [taken?_readNumber_eq, taken?_readNumber_eq, h, hread, Option.bind_some, Option.bind_some,
    Option.map_map]
  rfl

namespace Value

/-- A value that is no container, from its first octet on. -/
def scalar? : Octets → Option (Value × Octets)
  | [] => none
  | c :: r =>
    if c = Ascii.quote then (taken? (readText r)).map fun e => (.text e.1, e.2)
    else if c = Ascii.lowerN then (taken? (dropWord nullTail r)).map fun e => (.null, e.2)
    else if c = Ascii.lowerT then (taken? (dropWord trueTail r)).map fun e => (.boolean true, e.2)
    else if c = Ascii.lowerF then (taken? (dropWord falseTail r)).map fun e => (.boolean false, e.2)
    else if c = Ascii.minus || Ascii.isDigit c then
      (taken? (readNumber (c :: r))).map fun e => (.number e.1, e.2)
    else none

theorem taken?_readWith (written : Octets → Except Fault Value) (inner : Option (Reader Value))
    (s : Octets) :
    taken? (readWith written inner s) = match skipSpace s with
      | [] => none
      | c :: r => match Frame.opened? c with
        | none => scalar? (c :: r)
        | some .list => inner.bind fun inner =>
          (taken? (listItems inner true r)).map fun e => (.list e.1, e.2)
        | some .object => inner.bind fun inner => taken? (readObject written inner r) := by
  unfold readWith
  cases hs : skipSpace s with
  | nil => rw [withNext_nil hs]; rfl
  | cons c r =>
    rw [withNext_eq hs]
    dsimp only [scalar?]
    by_cases hlist : c = Ascii.openBracket
    · subst hlist
      have hopened : Frame.opened? Ascii.openBracket = some .list := by decide
      simp only [hopened]
      rw [if_neg (by decide), if_neg (by decide), if_neg (by decide), if_neg (by decide),
        if_neg (by decide), if_pos trivial]
      cases inner with
      | none => rfl
      | some inner => exact taken?_map_map_after
    by_cases hobject : c = Ascii.openBrace
    · subst hobject
      have hopened : Frame.opened? Ascii.openBrace = some .object := by decide
      simp only [hopened]
      rw [if_neg (by decide), if_neg (by decide), if_neg (by decide), if_neg (by decide),
        if_neg (by decide), if_neg (by decide), if_pos trivial]
      cases inner with
      | none => rfl
      | some inner => exact taken?_map_after
    have hopened : Frame.opened? c = none := by rw [Frame.opened?, if_neg hlist, if_neg hobject]
    simp only [hopened]
    rw [if_neg hlist, if_neg hobject]
    by_cases hquote : c = Ascii.quote
    · rw [if_pos hquote, if_pos hquote]
      exact taken?_map_map_after
    rw [if_neg hquote, if_neg hquote]
    repeat' split
    all_goals first | rfl | exact taken?_map_map_weaken

/-- A scalar that is passed over says the same whatever ends it. -/
theorem scalar?_append {c : UInt8} {w r : Octets}
    (h : taken? (Scan.skipScalar (c :: w)) = some ((), [])) (hr : Delimited r) :
    scalar? (c :: (w ++ r)) = (scalar? (c :: w)).map fun e => (e.1, r) := by
  have hword {word : Octets} (v : Value) (h : taken? (dropWord word w) = some ((), [])) :
      ((taken? (dropWord word (w ++ r))).map fun e => (v, e.2)) =
        ((taken? (dropWord word w)).map fun e => (v, e.2)).map fun e => (e.1, r) := by
    have hw := taken?_dropWord_iff.mp h
    rw [List.append_nil] at hw
    rw [h, hw, taken?_dropWord]
    rfl
  rw [Scan.taken?_skipScalar_cons] at h
  simp only [scalar?]
  by_cases hquote : c = Ascii.quote
  · rw [if_pos hquote] at h
    rw [if_pos hquote, if_pos hquote, taken?_readText_append h, Option.map_map, Option.map_map]
    rfl
  rw [if_neg hquote] at h
  rw [if_neg hquote, if_neg hquote]
  by_cases hnull : c = Ascii.lowerN
  · rw [if_pos hnull] at h
    rw [if_pos hnull, if_pos hnull, hword _ h]
  rw [if_neg hnull] at h
  rw [if_neg hnull, if_neg hnull]
  by_cases htrue : c = Ascii.lowerT
  · rw [if_pos htrue] at h
    rw [if_pos htrue, if_pos htrue, hword _ h]
  rw [if_neg htrue] at h
  rw [if_neg htrue, if_neg htrue]
  by_cases hfalse : c = Ascii.lowerF
  · rw [if_pos hfalse] at h
    rw [if_pos hfalse, if_pos hfalse, hword _ h]
  rw [if_neg hfalse] at h
  rw [if_neg hfalse, if_neg hfalse]
  by_cases hnumber : (c = Ascii.minus || Ascii.isDigit c) = true
  · rw [if_pos hnumber] at h
    obtain ⟨⟨x, r'⟩, hread, heq⟩ := Option.map_eq_some_iff.mp h
    obtain rfl : r' = [] := (Prod.mk.inj heq).2
    rw [if_pos hnumber, if_pos hnumber, ← List.cons_append, taken?_readNumber_append hread hr,
      Option.map_map, Option.map_map]
    rfl
  · rw [if_neg hnumber] at h
    cases h

end Value

namespace ScalarToken

/-- The text that a literal stands for. -/
def text? (t : ScalarToken) : Option String :=
  match t.octets with
  | [] => none
  | c :: w => if c = Ascii.quote then (taken? (readText w)).map (·.1) else none

def value? (t : ScalarToken) : Option Value := (Value.scalar? t.octets).map (·.1)

theorem scalar?_append (t : ScalarToken) {r : Octets} (hr : Delimited r) :
    Value.scalar? (t.octets ++ r) = t.value?.map fun v => (v, r) := by
  obtain ⟨c, w, hw, -⟩ := t.exists_cons
  have hscanned := t.scanned
  unfold value?
  rw [hw] at hscanned ⊢
  rw [List.cons_append, Value.scalar?_append hscanned hr, Option.map_map]
  rfl

end ScalarToken

/-! ### Names -/

namespace NameToken

def text? (n : NameToken) : Option String := (taken? (readText n.tail)).map (·.1)

theorem taken?_readText_tail (n : NameToken) (r : Octets) :
    taken? (readText (n.tail ++ r)) = n.text?.map fun text => (text, r) := by
  rw [taken?_readText_append n.scanned, text?, Option.map_map]
  rfl

end NameToken

/-! ### The value of a tree -/

namespace Tree

/-- What an object with the reserved name stands for, by its first value and its other members. -/
def writtenOut? : Tree → List (NameToken × Tree) → Option Value
  | scalar token, [] => token.text?.bind fun text => (Value.read (Text.octets text)).toOption
  | _, _ => none

mutual

/-- The value of the tree where containers may stand that deep inside one another. -/
def value? : Tree → Nat → Option Value
  | scalar token, _ => token.value?
  | list _, 0 => none
  | list items, depth + 1 => (itemValues? items depth).map .list
  | object _, 0 => none
  | object [], _ + 1 => some (.object [])
  | object ((name, x) :: rest), depth + 1 =>
    if name.text? = some Value.reservedName then writtenOut? x rest
    else (memberValues? ((name, x) :: rest) depth).map fun es => .object (Dict.ofList es).entries

def itemValues? : List Tree → Nat → Option (List Value)
  | [], _ => some []
  | x :: rest, depth =>
    (value? x depth).bind fun v => (itemValues? rest depth).map (v :: ·)

def memberValues? : List (NameToken × Tree) → Nat → Option (List (String × Value))
  | [], _ => some []
  | (name, x) :: rest, depth =>
    name.text?.bind fun n => (value? x depth).bind fun v =>
      (memberValues? rest depth).map ((n, v) :: ·)

end

end Tree

/-! ### Steps of the loops -/

section

variable {α σ : Type} {s r t : Octets} {first : Bool} {ts : List Octets}

theorem Spaced.skipSpace (hne : ts ≠ []) (h : Spaced ts s r) : Spaced ts (skipSpace s) r := by
  cases ts with
  | nil => exact absurd rfl hne
  | cons t ts =>
    obtain ⟨s', hs', h⟩ := h
    exact ⟨s', (skipSpace_skipSpace s).trans hs', h⟩

/-- What stands in front of an item or a name is its comma, if it is not the first. -/
theorem exists_lead (h : Spaced (Tree.separators first ++ ts) s r) :
    ∃ s', (∀ c t, skipSpace s' = c :: t → Begins first s c t) ∧ Spaced ts s' r := by
  rw [spaced_separators_iff] at h
  cases first with
  | true => exact ⟨s, fun _ _ hs => hs, h⟩
  | false =>
    obtain ⟨s', hcomma, h⟩ := h
    exact ⟨s', fun _ _ hs => ⟨s', hcomma, hs⟩, h⟩

/-- The next item is found behind what stands in front of it. -/
theorem exists_nextItem (h : Spaced (Tree.separators first ++ ts) s r) (hne : ts ≠ [])
    (hhead : ∀ s, Spaced ts s r → ∃ c t, skipSpace s = c :: t ∧ c ≠ Ascii.closeBracket) :
    ∃ t ht, Spaced ts t r ∧ nextItem first s = .ok (some ⟨(), t, ht⟩) := by
  obtain ⟨s', hlead, h⟩ := exists_lead h
  obtain ⟨c, t, hs, hc⟩ := hhead s' h
  obtain ⟨ht, hnext⟩ := nextItem_of_begins (hlead c t hs) hc
  exact ⟨c :: t, ht, hs ▸ h.skipSpace hne, hnext⟩

theorem taken?_listItems_next {item : Reader α} {u : Unit} {ht : t.length < s.length + 1}
    (h : nextItem first s = .ok (some ⟨u, t, ht⟩)) :
    taken? (listItems item first s) = (taken? (item t)).bind fun e =>
      (taken? (listItems item false e.2)).map fun f => (e.1 :: f.1, f.2) := by
  cases hitem : item t with
  | error f =>
    rw [listItems, h]
    simp only [hitem]
    rfl
  | ok p => exact taken?_listItems_some h (by rw [hitem]; rfl)

/-- The next name is found behind what stands in front of it, if it is a text. -/
theorem exists_nextName {name : NameToken}
    (h : Spaced (Tree.separators first ++ name.octets :: ts) s r) :
    ∃ t, Spaced ts t r ∧ match name.text? with
      | some n => ∃ ht, nextName first s = .ok (some ⟨n, t, ht⟩)
      | none => ∃ f, nextName first s = .error f := by
  obtain ⟨s', hlead, t, hs, h⟩ := exists_lead h
  obtain ⟨hle, hnext⟩ := nextName_of_begins (hlead Ascii.quote (name.tail ++ t) hs)
  have htail := name.taken?_readText_tail t
  refine ⟨t, h, ?_⟩
  rw [hnext]
  cases htext : name.text? with
  | some n =>
    rw [htext] at htail
    obtain ⟨ht, hread⟩ := taken?_eq_some_iff.mp htail
    rw [hread]
    exact ⟨_, rfl⟩
  | none =>
    rw [htext] at htail
    cases hread : readText (name.tail ++ t) with
    | error f => exact ⟨f, rfl⟩
    | ok p =>
      rw [hread] at htail
      cases htail

theorem taken?_foldMembers_next {member : σ → String → Reader σ} {g : σ} {name : String}
    {ht : t.length < s.length} (h : nextName first s = .ok (some ⟨name, t, ht⟩)) :
    taken? (foldMembers member first g s) = (taken? (member g name t)).bind fun e =>
      taken? (foldMembers member false e.1 e.2) := by
  cases hmember : member g name t with
  | error f =>
    rw [foldMembers, h]
    simp only [hmember]
    rfl
  | ok p => exact taken?_foldMembers_some h (by rw [hmember]; rfl)

theorem taken?_foldMembers_error {member : σ → String → Reader σ} {g : σ} {f : Fault}
    (h : nextName first s = .error f) : taken? (foldMembers member first g s) = none := by
  rw [foldMembers, h]
  rfl

end

/-! ### Reading a writing of a tree -/

namespace Tree

variable {s r : Octets}

theorem tokens_ne_nil (x : Tree) : x.tokens ≠ [] := by
  cases x <;> (rw [tokens]; exact List.cons_ne_nil _ _)

/-! #### Objects that hold a document written out -/

theorem taken?_readWrittenOut (written : Octets → Except Fault Value) {t : Octets}
    (h : skipSpace s = Ascii.colon :: t) :
    taken? (Value.readWrittenOut written s) = (taken? (Value.readLiteral t)).bind fun e =>
      (written (Text.octets e.1)).toOption.bind fun v =>
        (taken? (closeObject e.2)).map fun e => (v, e.2) := by
  obtain ⟨ht, hcolon⟩ := readColon_of_colon h
  unfold Value.readWrittenOut
  simp only [hcolon, bind, Except.bind]
  cases Value.readLiteral t with
  | error f => rfl
  | ok p =>
    simp only [taken?_ok, Option.bind_some]
    cases written (Text.octets p.value) with
    | error f => rfl
    | ok v =>
      simp only [Except.toOption, Option.bind_some]
      cases closeObject p.rest <;> rfl

/-- A literal is read where a literal stands. -/
theorem taken?_readLiteral (x : Tree) (h : Spaced x.tokens s r) :
    taken? (Value.readLiteral s) = match x with
      | scalar token => token.text?.map fun text => (text, r)
      | _ => none := by
  unfold Value.readLiteral
  cases x with
  | scalar token =>
    rw [tokens] at h
    obtain ⟨s', hs, rfl⟩ := h
    obtain ⟨c, w, hw, -⟩ := token.exists_cons
    have hscanned := token.scanned
    rw [hw, Scan.taken?_skipScalar_cons] at hscanned
    rw [hw, List.cons_append] at hs
    rw [withNext_eq hs]
    simp only [ScalarToken.text?, hw]
    by_cases hc : c = Ascii.quote
    · rw [if_pos hc] at hscanned
      rw [if_pos hc, if_pos hc, taken?_map_after, taken?_readText_append hscanned, Option.map_map]
      rfl
    · rw [if_neg hc, if_neg hc]
      rfl
  | list items =>
    rw [tokens] at h
    obtain ⟨s', hs, -⟩ := h
    rw [withNext_eq hs, if_neg (by decide)]
    rfl
  | object members =>
    rw [tokens] at h
    obtain ⟨s', hs, -⟩ := h
    rw [withNext_eq hs, if_neg (by decide)]
    rfl

theorem taken?_closeObject_of_members {ms : List (NameToken × Tree)}
    (h : Spaced (memberTokens false ms) s r) :
    taken? (closeObject s) = if ms.isEmpty then some ((), r) else none := by
  cases ms with
  | nil =>
    rw [memberTokens] at h
    obtain ⟨s', hs, rfl⟩ := h
    exact taken?_closeObject hs
  | cons m ms =>
    obtain ⟨name, x⟩ := m
    rw [memberTokens, spaced_separators_iff] at h
    obtain ⟨s', hs, -⟩ := h
    unfold closeObject
    rw [withNext_eq hs, if_neg (by decide), if_pos rfl]
    rfl

theorem taken?_readWrittenOut_of_spaced {x : Tree} {ms : List (NameToken × Tree)}
    (h : Spaced ([Ascii.colon] :: (x.tokens ++ memberTokens false ms)) s r) :
    taken? (Value.readWrittenOut Value.read s) = (writtenOut? x ms).map fun v => (v, r) := by
  obtain ⟨s', hs, h⟩ := h
  obtain ⟨m, hx, hms⟩ := spaced_append_iff.mp h
  rw [List.singleton_append] at hs
  rw [taken?_readWrittenOut Value.read hs, taken?_readLiteral x hx]
  cases x with
  | list items => rfl
  | object members => rfl
  | scalar token =>
    cases htext : token.text? with
    | none => cases ms <;> simp [writtenOut?, htext]
    | some text =>
      simp only [htext, Option.map_some, Option.bind_some, taken?_closeObject_of_members hms]
      cases ms with
      | nil =>
        simp only [writtenOut?, htext, Option.bind_some, List.isEmpty_nil, if_true, Option.map_some]
        cases Value.read (Text.octets text) <;> rfl
      | cons m ms =>
        simp [writtenOut?]

/-- Members are put together, unless the first one says that the object is written out. -/
theorem taken?_readObject_of_spaced {ms : List (NameToken × Tree)} {depth : Nat}
    (h : Spaced (memberTokens true ms) s r)
    (hfold : taken? (foldMembers (Value.readInto (Value.readAt Value.read depth)) true [] s) =
      (memberValues? ms depth).map fun es =>
        (es.foldl (fun g e => Dict.insertEntry e.1 e.2 g) [], r)) :
    taken? (Value.readObject Value.read (Value.readAt Value.read depth) s) =
      (value? (.object ms) (depth + 1)).map fun v => (v, r) := by
  unfold Value.readObject
  cases ms with
  | nil =>
    rw [memberTokens] at h
    obtain ⟨s', hs, rfl⟩ := h
    rw [nextName_of_close hs, value?]
    dsimp only
    rw [taken?_map_map, taken?_closeObject hs]
    rfl
  | cons e ms =>
    obtain ⟨name, x⟩ := e
    rw [memberTokens] at h
    obtain ⟨t, h, hnext⟩ := exists_nextName h
    rw [value?]
    cases hname : name.text? with
    | none =>
      rw [hname] at hnext
      obtain ⟨f, hnext⟩ := hnext
      rw [hnext, if_neg (by simp), memberValues?, hname]
      rfl
    | some n =>
      rw [hname] at hnext
      obtain ⟨ht, hnext⟩ := hnext
      rw [hnext]
      dsimp only
      by_cases hreserved : n = Value.reservedName
      · rw [if_pos hreserved, if_pos (congrArg some hreserved), taken?_map_after]
        exact taken?_readWrittenOut_of_spaced h
      · rw [if_neg hreserved, if_neg fun heq => hreserved (Option.some.inj heq), taken?_map_map,
          hfold, Option.map_map, Option.map_map]
        refine congrArg (Option.map · _) (funext fun es => ?_)
        show (Value.object _, r) = (Value.object _, r)
        rw [Dict.ofList, Dict.entries_foldl_insert]
        rfl

/-! #### Values -/

mutual

/-- **A writing of a tree is read as the value of the tree.** -/
theorem taken?_readAt : (x : Tree) → ∀ (depth : Nat) {s r : Octets},
    Spaced x.tokens s r → Delimited r →
      taken? (Value.readAt Value.read depth s) = (x.value? depth).map fun v => (v, r)
  | .scalar token, depth, s, r, h, hr => by
    rw [tokens] at h
    obtain ⟨s', hs, rfl⟩ := h
    obtain ⟨c, w, hw, -, hopened, -⟩ := token.exists_cons
    have hscalar := token.scalar?_append hr
    rw [hw, List.cons_append] at hs hscalar
    rw [value?]
    cases depth <;>
      (rw [Value.readAt, Value.taken?_readWith, hs]
       simp only [hopened]
       exact hscalar)
  | .list items, depth, s, r, h, _ => by
    rw [tokens] at h
    obtain ⟨s', hs, h⟩ := h
    have hopened : Frame.opened? Ascii.openBracket = some .list := by decide
    cases depth with
    | zero =>
      rw [Value.readAt, Value.taken?_readWith, hs, value?]
      simp only [List.singleton_append, hopened]
      rfl
    | succ depth =>
      rw [Value.readAt, Value.taken?_readWith, hs, value?]
      simp only [List.singleton_append, hopened, Option.bind_some]
      rw [taken?_listItems_of_spaced items h, Option.map_map, Option.map_map]
      rfl
  | .object members, depth, s, r, h, _ => by
    rw [tokens] at h
    obtain ⟨s', hs, h⟩ := h
    have hopened : Frame.opened? Ascii.openBrace = some .object := by decide
    cases depth with
    | zero =>
      rw [Value.readAt, Value.taken?_readWith, hs, value?]
      simp only [List.singleton_append, hopened]
      rfl
    | succ depth =>
      rw [Value.readAt, Value.taken?_readWith, hs]
      simp only [List.singleton_append, hopened, Option.bind_some]
      exact taken?_readObject_of_spaced h (taken?_foldMembers_of_spaced members h)

theorem taken?_listItems_of_spaced : (xs : List Tree) → ∀ {depth : Nat} {first : Bool}
    {s r : Octets}, Spaced (itemTokens first xs) s r →
      taken? (listItems (Value.readAt Value.read depth) first s) =
        (itemValues? xs depth).map fun vs => (vs, r)
  | [], depth, first, s, r, h => by
    rw [itemTokens] at h
    obtain ⟨s', hs, rfl⟩ := h
    rw [itemValues?]
    exact taken?_listItems_none (nextItem_of_close hs) (taken?_closeList hs)
  | x :: xs, depth, first, s, r, h => by
    rw [itemTokens] at h
    obtain ⟨t, ht, h, hnext⟩ := exists_nextItem h (by simp [tokens_ne_nil]) fun t ht =>
      exists_cons_of_spaced (spaced_append_iff.mp ht).choose_spec.1
    obtain ⟨m, hx, hxs⟩ := spaced_append_iff.mp h
    rw [taken?_listItems_next hnext, taken?_readAt x depth hx (delimited_of_items hxs), itemValues?]
    cases value? x depth with
    | none => rfl
    | some v =>
      simp only [Option.map_some, Option.bind_some]
      rw [taken?_listItems_of_spaced xs hxs, Option.map_map, Option.map_map]
      rfl

theorem taken?_foldMembers_of_spaced : (ms : List (NameToken × Tree)) → ∀ {depth : Nat}
    {first : Bool} {g : List (String × Value)} {s r : Octets},
    Spaced (memberTokens first ms) s r →
      taken? (foldMembers (Value.readInto (Value.readAt Value.read depth)) first g s) =
        (memberValues? ms depth).map fun es =>
          (es.foldl (fun g e => Dict.insertEntry e.1 e.2 g) g, r)
  | [], depth, first, g, s, r, h => by
    rw [memberTokens] at h
    obtain ⟨s', hs, rfl⟩ := h
    rw [memberValues?]
    exact taken?_foldMembers_none (nextName_of_close hs) (taken?_closeObject hs)
  | (name, x) :: ms, depth, first, g, s, r, h => by
    rw [memberTokens] at h
    obtain ⟨t, h, hnext⟩ := exists_nextName h
    rw [memberValues?]
    cases hname : name.text? with
    | none =>
      rw [hname] at hnext
      obtain ⟨f, hnext⟩ := hnext
      exact taken?_foldMembers_error hnext
    | some n =>
      rw [hname] at hnext
      obtain ⟨ht, hnext⟩ := hnext
      obtain ⟨t', hcolon, h⟩ := h
      obtain ⟨m, hx, hms⟩ := spaced_append_iff.mp h
      rw [List.singleton_append] at hcolon
      rw [taken?_foldMembers_next hnext, Value.readInto, taken?_map_map,
        taken?_readMember_of_colon hcolon, taken?_readAt x depth hx (delimited_of_members hms)]
      cases value? x depth with
      | none => rfl
      | some v =>
        simp only [Option.map_some, Option.bind_some]
        rw [taken?_foldMembers_of_spaced ms hms, Option.map_map]
        rfl

end

/-- **What is read from a writing of a tree is the value of the tree.** -/
theorem toOption_read {x : Tree} (h : x.Writes s) :
    (Value.read s).toOption = x.value? Value.maxDepth := by
  obtain ⟨r, hspaced, hr⟩ := h
  have hread := taken?_readAt x Value.maxDepth hspaced (delimited_of_blank hr)
  rw [Value.read_eq]
  cases hvalue : Value.readAt Value.read Value.maxDepth s with
  | error f =>
    rw [hvalue] at hread
    cases hx : x.value? Value.maxDepth with
    | none => rfl
    | some v =>
      rw [hx] at hread
      cases hread
  | ok p =>
    rw [hvalue, taken?_ok] at hread
    obtain ⟨v, hv, heq⟩ := Option.map_eq_some_iff.mp hread.symm
    obtain ⟨hpv, hpr⟩ := Prod.mk.inj heq
    simp only [bind, Except.bind, ← hpr, hr, List.isEmpty_nil, if_true, hv, hpv]
    rfl

end Tree

end FleetPlan.Json
