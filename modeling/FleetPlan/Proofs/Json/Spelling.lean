/-
What a literal spells, and where it ends.

A literal is decoded by one reader and passed over by another, and the two do not go
through it in the same steps: an escape that names a character by two surrogates is one
escape for the first and two for the second.  They agree on where the literal ends.
`Escape` and `Spells` say of some octets what both readers make of them, whatever stands
behind; every success of the first reader is one of these.
-/
import FleetPlan.Proofs.Json.Literal

namespace FleetPlan.Json

/-! ### Four digits -/

/-- Four digits to base sixteen and their number. -/
structure HexDigits (w : Octets) (n : Nat) : Prop where
  length_eq : w.length = 4
  read : ∀ r, taken? (readHex4 (w ++ r)) = some (n, r)

theorem exists_hexDigits {s x : Octets} {n : Nat} (h : taken? (readHex4 s) = some (n, x)) :
    ∃ w, s = w ++ x ∧ HexDigits w n := by
  obtain ⟨hx, hread⟩ := taken?_eq_some_iff.mp h
  unfold readHex4 at hread
  split at hread
  · rename_i a b c d rest
    split at hread
    · rename_i ha hb hc hd
      obtain ⟨rfl, rfl⟩ : _ ∧ rest = x := by simpa using hread
      refine ⟨[a, b, c, d], rfl, rfl, fun r => ?_⟩
      simp [readHex4, ha, hb, hc, hd]
    · cases hread
  · cases hread

/-! ### Escapes -/

/-- An escape without its backslash, and the octets that it stands for. -/
structure Escape (w b : Octets) : Prop where
  length_le : b.length ≤ w.length
  read : ∀ r, taken? (readEscape (w ++ r)) = some (b, r)
  skip : ∀ r, taken? (skipText (Ascii.backslash :: (w ++ r))) = taken? (skipText r)

theorem length_utf8EncodeChar_le (c : Char) : (String.utf8EncodeChar c).length ≤ 4 := by
  rw [String.length_utf8EncodeChar]
  exact c.utf8Size_le_four

theorem taken?_skipText_backslash (s : Octets) :
    taken? (skipText (Ascii.backslash :: s)) =
      (taken? (skipEscape s)).bind fun e => taken? (skipText e.2) := by
  rw [taken?_skipText_cons, if_neg (by decide), if_pos rfl]

theorem taken?_skipEscape_code {w : Octets} {n : Nat} (hw : HexDigits w n) (r : Octets) :
    taken? (skipEscape (Ascii.lowerU :: (w ++ r))) = some ((), r) := by
  rw [taken?_skipEscape_cons, if_neg (by decide), if_pos rfl, hw.read r]
  rfl

theorem taken?_readEscape_code (s : Octets) :
    taken? (readEscape (Ascii.lowerU :: s)) =
      (taken? (readCodeEscape s)).map fun e => (String.utf8EncodeChar e.1, e.2) := by
  have hshort : shortEscape? Ascii.lowerU = none := by decide
  simp only [readEscape, hshort, if_true]
  exact taken?_map_map_grow

/-- What a group of digits says about the character, and about what has to follow. -/
theorem taken?_readCodeEscape_eq {s x : Octets} {n : Nat} (h : taken? (readHex4 s) = some (n, x)) :
    taken? (readCodeEscape s) =
      if isLowSurrogate n then none
      else if !isHighSurrogate n then some (Char.ofNat n, x)
      else match x with
        | c :: d :: y =>
          if c = Ascii.backslash ∧ d = Ascii.lowerU then
            (taken? (readHex4 y)).bind fun e =>
              if isLowSurrogate e.1 then some (joinSurrogates n e.1, e.2) else none
          else none
        | _ => none := by
  obtain ⟨hx, hread⟩ := taken?_eq_some_iff.mp h
  simp only [readCodeEscape, hread, bind, Except.bind]
  by_cases hlow : isLowSurrogate n = true
  · rw [if_pos hlow, if_pos hlow]
    rfl
  rw [if_neg hlow, if_neg hlow]
  by_cases hhigh : (!isHighSurrogate n) = true
  · rw [if_pos hhigh, if_pos hhigh]
    rfl
  rw [if_neg hhigh, if_neg hhigh]
  rcases x with _ | ⟨c, _ | ⟨d, y⟩⟩
  · rfl
  · by_cases hc : c = Ascii.backslash <;> simp [hc]
  · by_cases hc : c = Ascii.backslash
    · by_cases hd : d = Ascii.lowerU
      · simp only [hc, hd, ne_eq, not_true_eq_false, if_false, and_self, if_true]
        cases readHex4 y with
        | error f => rfl
        | ok p =>
          simp only [taken?_ok, Option.bind_some]
          by_cases hlow' : isLowSurrogate p.value = true <;> simp [hlow']
      · simp [hc, hd]
    · simp [hc]

/-- An escape of four digits. -/
theorem Escape.code {w : Octets} {n : Nat} (hw : HexDigits w n) (hlow : ¬isLowSurrogate n = true)
    (hhigh : (!isHighSurrogate n) = true) :
    Escape (Ascii.lowerU :: w) (String.utf8EncodeChar (Char.ofNat n)) := by
  refine ⟨?_, fun r => ?_, fun r => ?_⟩
  · have := length_utf8EncodeChar_le (Char.ofNat n)
    rw [List.length_cons, hw.length_eq]
    omega
  · rw [List.cons_append, taken?_readEscape_code, taken?_readCodeEscape_eq (hw.read r), if_neg hlow,
      if_pos hhigh]
    rfl
  · rw [List.cons_append, taken?_skipText_backslash, taken?_skipEscape_code hw]
    rfl

/-- An escape of two groups of four digits is two escapes for who passes over it. -/
theorem Escape.pair {w w' : Octets} {n n' : Nat} (hw : HexDigits w n) (hw' : HexDigits w' n')
    (hlow : ¬isLowSurrogate n = true) (hhigh : ¬(!isHighSurrogate n) = true)
    (hlow' : isLowSurrogate n' = true) :
    Escape (Ascii.lowerU :: (w ++ Ascii.backslash :: Ascii.lowerU :: w'))
      (String.utf8EncodeChar (joinSurrogates n n')) := by
  have happend (r : Octets) : Ascii.lowerU :: (w ++ Ascii.backslash :: Ascii.lowerU :: w') ++ r =
      Ascii.lowerU :: (w ++ Ascii.backslash :: Ascii.lowerU :: (w' ++ r)) := by
    simp
  refine ⟨?_, fun r => ?_, fun r => ?_⟩
  · have := length_utf8EncodeChar_le (joinSurrogates n n')
    rw [List.length_cons, List.length_append, hw.length_eq]
    omega
  · rw [happend, taken?_readEscape_code, taken?_readCodeEscape_eq (hw.read _), if_neg hlow,
      if_neg hhigh]
    simp only [and_self, if_true, hw'.read, Option.bind_some, hlow', Option.map_some]
  · rw [happend, taken?_skipText_backslash, taken?_skipEscape_code hw, Option.bind_some,
      taken?_skipText_backslash, taken?_skipEscape_code hw']
    rfl

theorem Escape.short {c b : UInt8} (h : shortEscape? c = some b) : Escape [c] [b] := by
  refine ⟨Nat.le_refl _, fun r => ?_, fun r => ?_⟩
  · simp [readEscape, h, Taken.leaving]
  · rw [taken?_skipText_backslash, List.singleton_append, taken?_skipEscape_cons,
      if_pos (by simp [h])]
    rfl

theorem exists_codeEscape {s x : Octets} {char : Char}
    (h : taken? (readCodeEscape s) = some (char, x)) :
    ∃ w, s = w ++ x ∧ Escape (Ascii.lowerU :: w) (String.utf8EncodeChar char) := by
  cases hhex : taken? (readHex4 s) with
  | none =>
    cases hread : readHex4 s with
    | error f => simp [readCodeEscape, hread, bind, Except.bind] at h
    | ok p => simp [hread] at hhex
  | some e =>
    obtain ⟨n, z⟩ := e
    obtain ⟨w, rfl, hw⟩ := exists_hexDigits hhex
    rw [taken?_readCodeEscape_eq hhex] at h
    split at h
    · cases h
    rename_i hlow
    split at h
    · rename_i hhigh
      cases h
      exact ⟨w, rfl, .code hw hlow hhigh⟩
    rename_i hhigh
    split at h
    · rename_i c d y
      split at h
      · rename_i hcd
        obtain ⟨rfl, rfl⟩ := hcd
        obtain ⟨⟨n', y'⟩, hhex', hjoin⟩ := Option.bind_eq_some_iff.mp h
        obtain ⟨w', rfl, hw'⟩ := exists_hexDigits hhex'
        dsimp only at hjoin
        split at hjoin
        · rename_i hlow'
          obtain ⟨hchar, hrest⟩ := Prod.mk.inj (Option.some.inj hjoin)
          rw [← hchar, ← hrest]
          exact ⟨w ++ Ascii.backslash :: Ascii.lowerU :: w', by simp, .pair hw hw' hlow hhigh hlow'⟩
        · cases hjoin
      · cases h
    · cases h

theorem exists_escape {s b x : Octets} (h : taken? (readEscape s) = some (b, x)) :
    ∃ w, s = w ++ x ∧ Escape w b := by
  cases s with
  | nil => cases h
  | cons c s =>
    cases hshort : shortEscape? c with
    | some d =>
      obtain ⟨rfl, rfl⟩ : [d] = b ∧ s = x := by simpa [readEscape, hshort, Taken.leaving] using h
      exact ⟨[c], rfl, .short hshort⟩
    | none =>
      by_cases hc : c = Ascii.lowerU
      · rw [hc, taken?_readEscape_code, Option.map_eq_some_iff] at h
        obtain ⟨⟨char, y⟩, hcode, heq⟩ := h
        dsimp only at heq
        obtain ⟨rfl, rfl⟩ := Prod.mk.inj heq
        obtain ⟨w, rfl, hw⟩ := exists_codeEscape hcode
        exact ⟨Ascii.lowerU :: w, by rw [hc, List.cons_append], hw⟩
      · simp [readEscape, hshort, hc] at h

/-! ### Literals -/

/-- A literal without its opening quote, and the octets that it stands for. -/
structure SpellsOctets (w b : Octets) : Prop where
  length_lt : b.length < w.length
  read : ∀ r, taken? (literalOctets (w ++ r)) = some (b, r)
  skip : ∀ r, taken? (skipText (w ++ r)) = some ((), r)

theorem SpellsOctets.quote : SpellsOctets [Ascii.quote] [] := by
  refine ⟨Nat.lt_succ_self 0, fun r => ?_, fun r => ?_⟩
  · rw [List.singleton_append, taken?_literalOctets_cons, if_pos rfl]
  · rw [List.singleton_append, taken?_skipText_cons, if_pos rfl]

theorem SpellsOctets.escape {w b v a : Octets} (hescape : Escape w b) (h : SpellsOctets v a) :
    SpellsOctets (Ascii.backslash :: (w ++ v)) (b ++ a) := by
  refine ⟨?_, fun r => ?_, fun r => ?_⟩
  · have := hescape.length_le
    have := h.length_lt
    simp only [List.length_cons, List.length_append]
    omega
  · rw [List.cons_append, List.append_assoc, taken?_literalOctets_cons, if_neg (by decide),
      if_pos rfl, hescape.read, Option.bind_some, h.read]
    rfl
  · rw [List.cons_append, List.append_assoc, hescape.skip, h.skip]

theorem SpellsOctets.plain {c : UInt8} {v a : Octets} (hc : Plain c) (h : SpellsOctets v a) :
    SpellsOctets (c :: v) (c :: a) := by
  obtain ⟨hquote, hbackslash, hcontrol⟩ := hc
  refine ⟨Nat.succ_lt_succ h.length_lt, fun r => ?_, fun r => ?_⟩
  · rw [List.cons_append, taken?_literalOctets_cons, if_neg hquote, if_neg hbackslash,
      if_neg hcontrol, h.read]
    rfl
  · rw [List.cons_append, taken?_skipText_cons, if_neg hquote, if_neg hbackslash, if_neg hcontrol,
      h.skip]

theorem exists_spellsOctets {s b x : Octets} (h : taken? (literalOctets s) = some (b, x)) :
    ∃ w, s = w ++ x ∧ SpellsOctets w b := by
  induction hn : s.length using Nat.strongRecOn generalizing s b with
  | ind n ih =>
    cases s with
    | nil =>
      rw [literalOctets] at h
      cases h
    | cons c s =>
      rw [taken?_literalOctets_cons] at h
      by_cases hquote : c = Ascii.quote
      · rw [if_pos hquote] at h
        obtain ⟨rfl, rfl⟩ := Prod.mk.inj (Option.some.inj h)
        exact ⟨[c], rfl, hquote ▸ .quote⟩
      rw [if_neg hquote] at h
      by_cases hbackslash : c = Ascii.backslash
      · rw [if_pos hbackslash] at h
        obtain ⟨⟨bytes, y⟩, hescape, hmap⟩ := Option.bind_eq_some_iff.mp h
        obtain ⟨⟨a, z⟩, hrest, heq⟩ := Option.map_eq_some_iff.mp hmap
        obtain ⟨rfl, rfl⟩ := Prod.mk.inj heq
        obtain ⟨w, rfl, hw⟩ := exists_escape hescape
        have hlt : y.length < n := by
          rw [← hn, List.length_cons, List.length_append]
          omega
        obtain ⟨v, rfl, hv⟩ := ih y.length hlt hrest rfl
        exact ⟨c :: (w ++ v), by simp, hbackslash ▸ hv.escape hw⟩
      rw [if_neg hbackslash] at h
      by_cases hcontrol : c < 0x20
      · rw [if_pos hcontrol] at h
        cases h
      · rw [if_neg hcontrol] at h
        obtain ⟨⟨a, y⟩, hrest, heq⟩ := Option.map_eq_some_iff.mp h
        obtain ⟨rfl, rfl⟩ := Prod.mk.inj heq
        have hlt : s.length < n := by
          rw [← hn]
          exact Nat.lt_succ_self _
        obtain ⟨v, rfl, hv⟩ := ih s.length hlt hrest rfl
        exact ⟨c :: v, rfl, hv.plain ⟨hquote, hbackslash, hcontrol⟩⟩

/-- A literal without its opening quote, and the text that it stands for. -/
structure Spells (w : Octets) (text : String) : Prop where
  length_lt : (Text.octets text).length < w.length
  read : ∀ r, taken? (readText (w ++ r)) = some (text, r)
  skip : ∀ r, taken? (skipText (w ++ r)) = some ((), r)

theorem taken?_readText_eq (s : Octets) :
    taken? (readText s) = (taken? (literalOctets s)).bind fun e =>
      (Text.ofOctets? e.1).map fun text => (text, e.2) := by
  unfold readText
  cases literalOctets s with
  | error f => rfl
  | ok p =>
    simp only [bind, Except.bind, taken?_ok, Option.bind_some]
    cases Text.ofOctets? p.value <;> rfl

/-- **What is read as a text is spelled by what is taken.** -/
theorem exists_spells {s x : Octets} {text : String} (h : taken? (readText s) = some (text, x)) :
    ∃ w, s = w ++ x ∧ Spells w text := by
  rw [taken?_readText_eq, Option.bind_eq_some_iff] at h
  obtain ⟨⟨b, y⟩, hliteral, hmap⟩ := h
  obtain ⟨t, htext, heq⟩ := Option.map_eq_some_iff.mp hmap
  obtain ⟨rfl, rfl⟩ := Prod.mk.inj heq
  obtain ⟨w, rfl, hw⟩ := exists_spellsOctets hliteral
  have hb : Text.octets t = b := Text.octets_of_ofOctets? htext
  refine ⟨w, rfl, hb ▸ hw.length_lt, fun r => ?_, hw.skip⟩
  rw [taken?_readText_eq, hw.read, Option.bind_some, htext]
  rfl

/-! ### Where a literal ends -/

theorem taken?_skipEscape_append {s x : Octets} {u : Unit} (h : taken? (skipEscape s) = some (u, x))
    (r : Octets) : taken? (skipEscape (s ++ r)) = some ((), x ++ r) := by
  cases s with
  | nil => cases h
  | cons c s =>
    rw [taken?_skipEscape_cons] at h
    rw [List.cons_append, taken?_skipEscape_cons]
    by_cases hshort : (shortEscape? c).isSome = true
    · rw [if_pos hshort] at h ⊢
      cases h
      rfl
    rw [if_neg hshort] at h ⊢
    by_cases hcode : c = Ascii.lowerU
    · rw [if_pos hcode] at h ⊢
      obtain ⟨⟨n, y⟩, hhex, heq⟩ := Option.map_eq_some_iff.mp h
      obtain ⟨-, rfl⟩ := Prod.mk.inj heq
      obtain ⟨w, rfl, hw⟩ := exists_hexDigits hhex
      rw [List.append_assoc, hw.read]
      rfl
    · rw [if_neg hcode] at h
      cases h

/-- A literal that is passed over ends there whatever stands behind it. -/
theorem taken?_skipText_append {s x : Octets} {u : Unit} (h : taken? (skipText s) = some (u, x))
    (r : Octets) : taken? (skipText (s ++ r)) = some ((), x ++ r) := by
  induction hn : s.length using Nat.strongRecOn generalizing s with
  | ind n ih =>
    cases s with
    | nil =>
      rw [skipText] at h
      cases h
    | cons c s =>
      rw [taken?_skipText_cons] at h
      rw [List.cons_append, taken?_skipText_cons]
      by_cases hquote : c = Ascii.quote
      · rw [if_pos hquote] at h ⊢
        cases h
        rfl
      rw [if_neg hquote] at h ⊢
      by_cases hbackslash : c = Ascii.backslash
      · rw [if_pos hbackslash] at h ⊢
        obtain ⟨⟨u', y⟩, hescape, hrest⟩ := Option.bind_eq_some_iff.mp h
        have hlt : y.length < s.length := (taken?_eq_some_iff.mp hescape).1
        rw [taken?_skipEscape_append hescape, Option.bind_some]
        exact ih y.length (by rw [← hn]; exact Nat.lt_succ_of_lt hlt) hrest rfl
      rw [if_neg hbackslash] at h ⊢
      by_cases hcontrol : c < 0x20
      · rw [if_pos hcontrol] at h
        cases h
      · rw [if_neg hcontrol] at h ⊢
        exact ih s.length (by rw [← hn]; exact Nat.lt_succ_self _) h rfl

/-- A literal that is passed over is read alike whatever stands behind it. -/
theorem taken?_readText_append {w : Octets} (h : taken? (skipText w) = some ((), [])) (r : Octets) :
    taken? (readText (w ++ r)) = (taken? (readText w)).map fun e => (e.1, r) := by
  cases hread : taken? (readText w) with
  | some e =>
    obtain ⟨text, x⟩ := e
    obtain ⟨v, rfl, hv⟩ := exists_spells hread
    rw [hv.skip] at h
    obtain rfl : x = [] := (Prod.mk.inj (Option.some.inj h)).2
    rw [List.append_nil, hv.read]
    rfl
  | none =>
    cases hread' : taken? (readText (w ++ r)) with
    | none => rfl
    | some e =>
      -- What is read in front of something else is this very literal, so it is read alone as well.
      obtain ⟨text, x⟩ := e
      obtain ⟨v, hv, hspells⟩ := exists_spells hread'
      have hskip := taken?_skipText_append h r
      rw [hv, hspells.skip] at hskip
      obtain rfl : x = r := (Prod.mk.inj (Option.some.inj hskip)).2
      have hself := hspells.read []
      rw [List.append_nil, ← List.append_cancel_right hv, hread] at hself
      cases hself

end FleetPlan.Json
