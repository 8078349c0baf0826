/-
Text survives being written and read.

A character is written as octets that a literal takes for that character alone: those
that would end the literal or begin an escape are escaped, and the octets of every
character outside ASCII are above all that are looked for.  So a written literal is
read back whatever stands behind its closing quote.
-/
import FleetPlan.Json.Literal
import FleetPlan.Proofs.Json.Reader

namespace FleetPlan

namespace Text

theorem octets_ofList (cs : List Char) :
    octets (String.ofList cs) = cs.flatMap String.utf8EncodeChar := by
  rw [octets, String.toByteArray_ofList, List.utf8Encode]
  simp

theorem octets_eq (s : String) : octets s = s.toList.flatMap String.utf8EncodeChar := by
  rw [← octets_ofList, String.ofList_toList]

theorem octets_inj {s t : String} (h : octets s = octets t) : s = t := by
  have hs := ofOctets?_octets s
  rw [h, ofOctets?_octets] at hs
  exact (Option.some.inj hs).symm

theorem octets_of_ofOctets? {bytes : Octets} {s : String} (h : ofOctets? bytes = some s) :
    octets s = bytes := by
  unfold ofOctets? String.fromUTF8? at h
  split at h
  · rw [← Option.some.inj h]
    rfl
  · simp at h

end Text

namespace Json

/-! ### The octets of characters -/

theorem utf8EncodeChar_ascii {c : Char} (h : c.toNat ≤ 0x7f) :
    String.utf8EncodeChar c = [UInt8.ofNat c.toNat] := by
  unfold String.utf8EncodeChar
  exact if_pos h

/-- Outside ASCII all octets are above ASCII. -/
theorem exists_of_mem_utf8EncodeChar {c : Char} (h : ¬c.toNat ≤ 0x7f) {b : UInt8}
    (hb : b ∈ String.utf8EncodeChar c) : ∃ n, 0x80 ≤ n ∧ n < 256 ∧ b = UInt8.ofNat n := by
  revert hb
  fun_cases String.utf8EncodeChar c with
  | case1 v hv => exact absurd hv h
  | case2 v _ hv =>
    simp only [List.mem_cons, List.not_mem_nil, or_false]
    rintro (rfl | rfl) <;> exact ⟨_, by omega, by omega, rfl⟩
  | case3 v _ _ hv =>
    simp only [List.mem_cons, List.not_mem_nil, or_false]
    rintro (rfl | rfl | rfl) <;> exact ⟨_, by omega, by omega, rfl⟩
  | case4 v _ _ hv =>
    simp only [List.mem_cons, List.not_mem_nil, or_false]
    rintro (rfl | rfl | rfl | rfl) <;> exact ⟨_, by omega, by omega, rfl⟩

/-- An octet that stands for itself in a literal. -/
def Plain (b : UInt8) : Prop := b ≠ Ascii.quote ∧ b ≠ Ascii.backslash ∧ ¬b < 0x20

theorem plain_ofNat {n : Nat} (hlow : 0x20 ≤ n) (hhigh : n < 256) (hquote : n ≠ 0x22)
    (hbackslash : n ≠ 0x5c) : Plain (UInt8.ofNat n) := by
  have hn : (UInt8.ofNat n).toNat = n := by simp [Nat.mod_eq_of_lt hhigh]
  refine ⟨?_, ?_, ?_⟩
  · intro h
    apply hquote
    rw [← hn, h]
    rfl
  · intro h
    apply hbackslash
    rw [← hn, h]
    rfl
  · intro h
    have hlt := UInt8.lt_iff_toNat_lt.mp h
    rw [hn] at hlt
    exact absurd hlt (Nat.not_lt.mpr hlow)

/-- The octets of a character that is not escaped stand for themselves. -/
theorem plain_of_mem_utf8EncodeChar {c : Char} (hquote : c ≠ '"') (hbackslash : c ≠ '\\')
    (hcontrol : ¬c.toNat < 0x20) {b : UInt8} (hb : b ∈ String.utf8EncodeChar c) : Plain b := by
  have hne {d : Char} (h : c ≠ d) : c.toNat ≠ d.toNat := fun heq => h (Char.toNat_inj.mp heq)
  by_cases hascii : c.toNat ≤ 0x7f
  · rw [utf8EncodeChar_ascii hascii, List.mem_singleton] at hb
    subst hb
    exact plain_ofNat (by omega) (by omega) (hne hquote) (hne hbackslash)
  · obtain ⟨n, hlow, hhigh, rfl⟩ := exists_of_mem_utf8EncodeChar hascii hb
    exact plain_ofNat (by omega) hhigh (by omega) (by omega)

/-! ### One character -/

theorem taken?_literalOctets_cons (c : UInt8) (r : Octets) :
    taken? (literalOctets (c :: r)) =
      if c = Ascii.quote then some ([], r)
      else if c = Ascii.backslash then
        (taken? (readEscape r)).bind fun e =>
          (taken? (literalOctets e.2)).map fun f => (e.1 ++ f.1, f.2)
      else if c < 0x20 then none
      else (taken? (literalOctets r)).map fun f => (c :: f.1, f.2) := by
  rw [literalOctets]
  split
  · rfl
  · split
    · cases readEscape r with
      | error f => rfl
      | ok p =>
        obtain ⟨bytes, r', h⟩ := p
        simp only [taken?_ok, Option.bind_some]
        cases literalOctets r' <;> rfl
    · split
      · rfl
      · exact taken?_map_map_grow

theorem taken?_literalOctets_plain {bs : Octets} (h : ∀ b ∈ bs, Plain b) (r : Octets) :
    taken? (literalOctets (bs ++ r)) =
      (taken? (literalOctets r)).map fun e => (bs ++ e.1, e.2) := by
  induction bs with
  | nil => simp
  | cons b bs ih =>
    obtain ⟨hquote, hbackslash, hcontrol⟩ := h b List.mem_cons_self
    rw [List.cons_append, taken?_literalOctets_cons, if_neg hquote, if_neg hbackslash,
      if_neg hcontrol, ih fun d hd => h d (List.mem_cons_of_mem _ hd), Option.map_map]
    rfl

/-- An escape of one letter is taken for the character that it stands for. -/
theorem taken?_literalOctets_short {c e : Char} {d : UInt8} (he : String.utf8EncodeChar e = [d])
    (h : (shortEscape? d).map (fun b => [b]) = some (String.utf8EncodeChar c)) (r : Octets) :
    taken? (literalOctets (['\\', e].flatMap String.utf8EncodeChar ++ r)) =
      (taken? (literalOctets r)).map fun f => (String.utf8EncodeChar c ++ f.1, f.2) := by
  have hwritten : ['\\', e].flatMap String.utf8EncodeChar = [Ascii.backslash, d] := by
    simp only [List.flatMap_cons, List.flatMap_nil, he]
    rfl
  obtain ⟨b, hb, hc⟩ := Option.map_eq_some_iff.mp h
  rw [hwritten, ← hc, List.cons_append, taken?_literalOctets_cons, if_neg (by decide), if_pos rfl]
  simp [readEscape, hb, Taken.leaving]

/-- The octet of a digit to base sixteen. -/
def hexOctet (d : Nat) : UInt8 := UInt8.ofNat (Nat.digitChar d).toNat

theorem hexValue?_hexOctet : ∀ d < 16, Ascii.hexValue? (hexOctet d) = some d := by decide

theorem utf8EncodeChar_digitChar : ∀ d < 16,
    String.utf8EncodeChar (Nat.digitChar d) = [hexOctet d] := by decide

/-- A character named by four digits. -/
theorem taken?_readCodeEscape {s r : Octets} {n : Nat} (h : taken? (readHex4 s) = some (n, r))
    (hn : n < 0xd800) : taken? (readCodeEscape s) = some (Char.ofNat n, r) := by
  obtain ⟨hr, hread⟩ := taken?_eq_some_iff.mp h
  have hlow : isLowSurrogate n = false := by
    simp only [isLowSurrogate, Bool.and_eq_false_iff, decide_eq_false_iff_not]
    omega
  have hhigh : isHighSurrogate n = false := by
    simp only [isHighSurrogate, Bool.and_eq_false_iff, decide_eq_false_iff_not]
    omega
  simp only [readCodeEscape, hread, bind, Except.bind]
  rw [if_neg (by simp [hlow]), if_pos (by simp [hhigh])]
  rfl

theorem taken?_literalOctets_code {n : Nat} (hn : n < 0x20) (r : Octets) :
    taken? (literalOctets (Ascii.backslash :: Ascii.lowerU :: Ascii.zero :: Ascii.zero ::
        hexOctet (n / 16) :: hexOctet (n % 16) :: r)) =
      (taken? (literalOctets r)).map fun e =>
        (String.utf8EncodeChar (Char.ofNat n) ++ e.1, e.2) := by
  have hhex : taken? (readHex4 (Ascii.zero :: Ascii.zero :: hexOctet (n / 16) ::
      hexOctet (n % 16) :: r)) = some (n, r) := by
    have hzero : Ascii.hexValue? Ascii.zero = some 0 := by decide
    simp only [readHex4, hzero, hexValue?_hexOctet (n / 16) (by omega),
      hexValue?_hexOctet (n % 16) (by omega), taken?_ok]
    congr 2
    omega
  have hescape : taken? (readEscape (Ascii.lowerU :: Ascii.zero :: Ascii.zero ::
      hexOctet (n / 16) :: hexOctet (n % 16) :: r)) =
        some (String.utf8EncodeChar (Char.ofNat n), r) := by
    have hshort : shortEscape? Ascii.lowerU = none := by decide
    simp only [readEscape, hshort, if_true]
    rw [taken?_map_map_grow, taken?_readCodeEscape hhex (by omega)]
    rfl
  rw [taken?_literalOctets_cons, if_neg (by decide), if_pos rfl, hescape]
  rfl

/-- A written character is taken for that character. -/
theorem taken?_literalOctets_writeChar (c : Char) (r : Octets) :
    taken? (literalOctets ((writeChar c).flatMap String.utf8EncodeChar ++ r)) =
      (taken? (literalOctets r)).map fun e => (String.utf8EncodeChar c ++ e.1, e.2) := by
  fun_cases writeChar c with
  | case1 hc => exact taken?_literalOctets_short rfl (by rw [hc]; decide) r
  | case2 _ hc => exact taken?_literalOctets_short rfl (by rw [hc]; decide) r
  | case3 _ _ hc => exact taken?_literalOctets_short rfl (by rw [hc]; decide) r
  | case4 _ _ _ hc => exact taken?_literalOctets_short rfl (by rw [hc]; decide) r
  | case5 _ _ _ _ hc => exact taken?_literalOctets_short rfl (by rw [hc]; decide) r
  | case6 _ _ _ _ _ hc => exact taken?_literalOctets_short rfl (by rw [hc]; decide) r
  | case7 _ _ _ _ _ _ hc => exact taken?_literalOctets_short rfl (by rw [hc]; decide) r
  | case8 _ _ _ _ _ _ _ hcontrol =>
    have hwritten : (codeEscape c).flatMap String.utf8EncodeChar = [Ascii.backslash, Ascii.lowerU,
        Ascii.zero, Ascii.zero, hexOctet (c.toNat / 16), hexOctet (c.toNat % 16)] := by
      simp only [codeEscape, List.flatMap_cons, List.flatMap_nil,
        utf8EncodeChar_digitChar (c.toNat / 16) (by omega),
        utf8EncodeChar_digitChar (c.toNat % 16) (by omega)]
      rfl
    have hcode := taken?_literalOctets_code hcontrol r
    rw [Char.ofNat_toNat] at hcode
    rw [hwritten]
    exact hcode
  | case9 hquote hbackslash _ _ _ _ _ hcontrol =>
    rw [List.flatMap_singleton]
    exact taken?_literalOctets_plain
      (fun _ => plain_of_mem_utf8EncodeChar hquote hbackslash hcontrol) r

/-! ### Whole literals -/

theorem taken?_literalOctets_write (cs : List Char) (r : Octets) :
    taken? (literalOctets ((cs.flatMap writeChar).flatMap String.utf8EncodeChar ++
        Ascii.quote :: r)) = some (cs.flatMap String.utf8EncodeChar, r) := by
  induction cs with
  | nil =>
    rw [List.flatMap_nil, List.flatMap_nil, List.nil_append, taken?_literalOctets_cons, if_pos rfl]
  | cons c cs ih =>
    rw [List.flatMap_cons, List.flatMap_append, List.append_assoc, taken?_literalOctets_writeChar,
      ih]
    rfl

/-- A written text without its opening quote. -/
def textTail (s : String) : Octets :=
  (s.toList.flatMap writeChar).flatMap String.utf8EncodeChar ++ [Ascii.quote]

theorem octets_writeText (s : String) :
    Text.octets (writeText s) = Ascii.quote :: textTail s := by
  rw [writeText, Text.octets_ofList]
  simp only [List.flatMap_cons, List.cons_append, List.flatMap_append, textTail]
  rfl

/-- **A written text is read back.** -/
theorem taken?_readText (s : String) (r : Octets) :
    taken? (readText (textTail s ++ r)) = some (s, r) := by
  have hliteral : taken? (literalOctets (textTail s ++ r)) = some (Text.octets s, r) := by
    rw [textTail, List.append_assoc, Text.octets_eq]
    exact taken?_literalOctets_write s.toList r
  obtain ⟨hr, hread⟩ := taken?_eq_some_iff.mp hliteral
  simp only [readText, hread, bind, Except.bind, Text.ofOctets?_octets]
  rfl

/-! ### Literals that are passed over -/

theorem taken?_skipText_cons (c : UInt8) (r : Octets) :
    taken? (skipText (c :: r)) =
      if c = Ascii.quote then some ((), r)
      else if c = Ascii.backslash then (taken? (skipEscape r)).bind fun e => taken? (skipText e.2)
      else if c < 0x20 then none
      else taken? (skipText r) := by
  rw [skipText]
  split
  · rfl
  · split
    · cases skipEscape r with
      | error f => rfl
      | ok p =>
        obtain ⟨u, r', h⟩ := p
        simp only [taken?_ok, Option.bind_some]
        cases skipText r' <;> rfl
    · split
      · rfl
      · exact taken?_map_grow

theorem local_readHex4 : Local fun s => taken? (readHex4 s) := by
  intro s n r h
  obtain ⟨hr, hread⟩ := taken?_eq_some_iff.mp h
  unfold readHex4 at hread
  split at hread
  · rename_i a b c d rest
    split at hread
    · rename_i hw hx hy hz
      obtain ⟨rfl, rfl⟩ : _ ∧ rest = r := by simpa using hread
      refine ⟨[a, b, c, d], rfl, ?_⟩
      intro r' _
      simp [readHex4, hw, hx, hy, hz]
    · simp at hread
  · simp at hread

theorem taken?_skipEscape_cons (c : UInt8) (r : Octets) :
    taken? (skipEscape (c :: r)) =
      if (shortEscape? c).isSome then some ((), r)
      else if c = Ascii.lowerU then (taken? (readHex4 r)).map fun e => ((), e.2)
      else none := by
  rw [skipEscape]
  cases shortEscape? c with
  | some b => rfl
  | none =>
    by_cases hc : c = Ascii.lowerU
    · simp only [Option.isSome_none, Bool.false_eq_true, if_false, if_pos hc]
      exact taken?_map_map_grow
    · simp [hc]

theorem local_skipEscape : Local fun s => taken? (skipEscape s) := by
  intro s
  cases s with
  | nil => simp [LocalAt, skipEscape]
  | cons c s =>
    refine .cons (taken?_skipEscape_cons c) (.ite (fun _ => .pure ()) fun _ => ?_)
    exact .ite (fun _ => (local_readHex4 s).map fun _ => ()) fun _ => .fail

/-- A literal is passed over whatever stands behind it. -/
theorem local_skipText : Local fun s => taken? (skipText s) := by
  intro s
  induction hn : s.length using Nat.strongRecOn generalizing s with
  | ind n ih =>
    cases s with
    | nil => simp [LocalAt, skipText]
    | cons c s =>
      refine .cons (taken?_skipText_cons c) (.ite (fun _ => .pure ()) fun _ => .ite (fun _ => ?_) ?_)
      · refine (local_skipEscape s).bind (g := fun _ t => taken? (skipText t)) ?_
        intro u r hescape
        obtain ⟨hr, -⟩ := taken?_eq_some_iff.mp hescape
        exact ih r.length (by rw [← hn]; exact Nat.lt_succ_of_lt hr) r rfl
      · refine fun _ => .ite (fun _ => .fail) fun _ => ?_
        exact ih s.length (by rw [← hn]; exact Nat.lt_succ_self _) s rfl

end Json

end FleetPlan
