/-
Integers survive being written and read, and numerals end where they seem to end.

The digits of a numeral are a run that is as long as it can be, so what a numeral is
depends on the first octet behind it.  In front of what ends a value the run is the
numeral's own, and the numeral is local.  The digits of an integer are read as the
integer: no zero stands in front, and the value of a digit run is the number it was
made of.
-/
import FleetPlan.Json.Number
import FleetPlan.Proofs.Json.Literal
import Mathlib.Data.List.Basic

namespace FleetPlan.Json

/-! ### What stands behind a numeral -/

/-- Nothing that a numeral could go on with. -/
def EndsNumeral (r : Octets) : Prop :=
  ∀ c ∈ r.head?, Ascii.isDigit c = false ∧ c ≠ Ascii.point ∧ c ≠ Ascii.lowerE ∧ c ≠ Ascii.upperE

theorem Delimited.endsNumeral {r : Octets} (h : Delimited r) : EndsNumeral r := by
  intro c hc
  rcases h c hc with hspace | rfl | rfl | rfl
  · simp only [Ascii.isSpace, Bool.or_eq_true, beq_iff_eq] at hspace
    rcases hspace with ((rfl | rfl) | rfl) | rfl <;> decide
  · decide
  · decide
  · decide

namespace Numeral

variable {cut : Fault}

/-! ### Runs of digits -/

theorem taken?_someDigits (s : Octets) :
    taken? (someDigits cut s) =
      if s.takeWhile Ascii.isDigit = [] then none
      else some (s.takeWhile Ascii.isDigit, s.dropWhile Ascii.isDigit) := by
  unfold someDigits
  split
  · rename_i d ds h
    simp [h]
  · rename_i h
    simp [h]

theorem local_someDigits : Local fun s => taken? (someDigits cut s) := by
  intro s ds r h
  dsimp only at h
  rw [taken?_someDigits] at h
  split at h
  · simp at h
  · rename_i hne
    obtain ⟨rfl, rfl⟩ := Prod.mk.inj (Option.some.inj h)
    refine ⟨_, (List.takeWhile_append_dropWhile).symm, ?_⟩
    intro r' hr'
    have hhead : ∀ c ∈ r'.head?, Ascii.isDigit c = false := by
      rcases hr' with hsame | hends
      · intro c hc
        have hstop := List.head?_dropWhile_not Ascii.isDigit s
        rw [← hsame, Option.mem_def.mp hc] at hstop
        exact hstop
      · exact fun c hc => (hends.endsNumeral c hc).1
    obtain ⟨htake, hdrop⟩ := Taken.takeWhile_append_of_head
      (List.all_eq_true.mp (List.all_takeWhile (l := s) (p := Ascii.isDigit))) hhead
    dsimp only
    rw [taken?_someDigits, htake, hdrop, if_neg hne]

/-! ### The parts of a numeral -/

theorem taken?_wholePart_cons (c : UInt8) (r : Octets) :
    taken? (wholePart cut (c :: r)) =
      if c = Ascii.zero then if r.head?.any Ascii.isDigit then none else some ([c], r)
      else taken? (someDigits cut (c :: r)) := by
  rw [wholePart]
  by_cases hc : c = Ascii.zero
  · rw [if_pos hc, if_pos hc]
    split <;> rfl
  · rw [if_neg hc, if_neg hc]

theorem taken?_fractionPart_cons (c : UInt8) (r : Octets) :
    taken? (fractionPart cut (c :: r)) =
      if c = Ascii.point then (taken? (someDigits cut r)).map fun e => (some e.1, e.2)
      else some (none, c :: r) := by
  rw [fractionPart]
  by_cases hc : c = Ascii.point
  · rw [if_pos hc, if_pos hc]
    cases someDigits cut r <;> rfl
  · rw [if_neg hc, if_neg hc]
    rfl

/-- The digits of an exponent, behind its letter. -/
def exponentDigits (cut : Fault) : Octets → Option (Option (Bool × Octets) × Octets)
  | [] => none
  | d :: r =>
    if d = Ascii.plus ∨ d = Ascii.minus then
      (taken? (someDigits cut r)).map fun e => (some (decide (d = Ascii.minus), e.1), e.2)
    else (taken? (someDigits cut (d :: r))).map fun e => (some (false, e.1), e.2)

theorem taken?_exponentPart_cons (c : UInt8) (r : Octets) :
    taken? (exponentPart cut (c :: r)) =
      if c = Ascii.lowerE ∨ c = Ascii.upperE then exponentDigits cut r
      else some (none, c :: r) := by
  unfold exponentPart
  dsimp only
  by_cases hc : c = Ascii.lowerE ∨ c = Ascii.upperE
  · rw [if_pos (by simpa using hc), if_pos hc]
    cases r with
    | nil => rfl
    | cons d r =>
      dsimp only [exponentDigits]
      by_cases hd : d = Ascii.plus ∨ d = Ascii.minus
      · rw [if_pos (by simpa using hd), if_pos hd]
        cases someDigits cut r <;> rfl
      · rw [if_neg (by simpa using hd), if_neg hd]
        cases someDigits cut (d :: r) <;> rfl
  · rw [if_neg (by simpa using hc), if_neg hc]
    rfl

/-- What looks at the first octet only to leave it there is local. -/
theorem localAt_absent {α : Type} {f : Octets → Option (α × Octets)} {a : α} {s : Octets}
    (hsame : ∀ t, t.head? = s.head? → f t = some (a, t))
    (hends : ∀ t, EndsNumeral t → f t = some (a, t)) : LocalAt f s := by
  intro b r h
  obtain ⟨rfl, rfl⟩ := Prod.mk.inj (Option.some.inj ((hsame s rfl).symm.trans h))
  refine ⟨[], rfl, ?_⟩
  intro r' hr'
  rcases hr' with hhead | hdelimited
  · exact hsame r' hhead
  · exact hends r' hdelimited.endsNumeral

theorem local_wholePart : Local fun s => taken? (wholePart cut s) := by
  intro s
  cases s with
  | nil => simp [LocalAt, wholePart]
  | cons c r =>
    by_cases hc : c = Ascii.zero
    · refine .cons (g := fun t => if t.head?.any Ascii.isDigit then none else some ([c], t))
        (fun t => (taken?_wholePart_cons c t).trans (if_pos hc)) ?_
      by_cases hdigit : r.head?.any Ascii.isDigit = true
      · intro a r' h
        dsimp only at h
        rw [if_pos hdigit] at h
        simp at h
      · refine localAt_absent (fun t ht => if_neg (by rw [ht]; exact hdigit)) fun t ht => ?_
        refine if_neg ?_
        intro hany
        obtain ⟨d, hd, hdigit⟩ := (Option.any_eq_true _ _).mp hany
        rw [(ht d hd).1] at hdigit
        exact Bool.noConfusion hdigit
    · refine .cons (fun t => (taken?_wholePart_cons c t).trans (if_neg hc)) ?_
      exact (local_someDigits (c :: r)).tail fun a r' h => (taken?_eq_some_iff.mp h).1

theorem fractionPart_absent {t : Octets} (ht : ∀ c ∈ t.head?, c ≠ Ascii.point) :
    taken? (fractionPart cut t) = some (none, t) := by
  cases t with
  | nil => rfl
  | cons c t => rw [taken?_fractionPart_cons, if_neg (ht c rfl)]

theorem exponentPart_absent {t : Octets}
    (ht : ∀ c ∈ t.head?, c ≠ Ascii.lowerE ∧ c ≠ Ascii.upperE) :
    taken? (exponentPart cut t) = some (none, t) := by
  cases t with
  | nil => rfl
  | cons c t => rw [taken?_exponentPart_cons, if_neg (not_or.mpr (ht c rfl))]

theorem local_fractionPart : Local fun s => taken? (fractionPart cut s) := by
  intro s
  by_cases hs : ∀ c ∈ s.head?, c ≠ Ascii.point
  · exact localAt_absent (fun t ht => fractionPart_absent (by rwa [ht])) fun t ht =>
      fractionPart_absent fun c hc => (ht c hc).2.1
  · cases s with
    | nil => simp at hs
    | cons c r =>
      obtain rfl : c = Ascii.point := by simpa using hs
      exact .cons (fun t => (taken?_fractionPart_cons _ t).trans (if_pos rfl))
        ((local_someDigits r).map some)

theorem local_exponentDigits : Local (exponentDigits cut) := by
  intro s
  cases s with
  | nil => simp [LocalAt, exponentDigits]
  | cons d r =>
    by_cases hd : d = Ascii.plus ∨ d = Ascii.minus
    · exact .cons (fun t => if_pos hd)
        ((local_someDigits r).map fun ds => some (decide (d = Ascii.minus), ds))
    · have hdigits : LocalAt (fun t => (taken? (someDigits cut t)).map fun e =>
          (some (false, e.1), e.2)) (d :: r) := (local_someDigits _).map fun ds => some (false, ds)
      refine .cons (fun t => ?_) (hdigits.tail ?_)
      · exact if_neg hd
      · intro a r' h
        obtain ⟨⟨ds, r''⟩, hds, he⟩ := Option.map_eq_some_iff.mp h
        rw [← (Prod.mk.inj he).2]
        exact (taken?_eq_some_iff.mp hds).1

theorem local_exponentPart : Local fun s => taken? (exponentPart cut s) := by
  intro s
  have habsent (hs : ∀ c ∈ s.head?, c ≠ Ascii.lowerE ∧ c ≠ Ascii.upperE) :
      LocalAt (fun s => taken? (exponentPart cut s)) s :=
    localAt_absent (fun t ht => exponentPart_absent (by rwa [ht])) fun t ht =>
      exponentPart_absent fun c hc => (ht c hc).2.2
  cases s with
  | nil => exact habsent (by simp)
  | cons c r =>
    by_cases hc : c = Ascii.lowerE ∨ c = Ascii.upperE
    · exact .cons (fun t => (taken?_exponentPart_cons _ t).trans (if_pos hc))
        (local_exponentDigits r)
    · refine habsent ?_
      intro d hd
      obtain rfl : c = d := by simpa using hd
      exact not_or.mp hc

/-- The parts of a numeral from its first digit on. -/
def readBody (cut : Fault) (negative : Bool) (s : Octets) : Option (Numeral × Octets) :=
  (taken? (wholePart cut s)).bind fun w =>
    (taken? (fractionPart cut w.2)).bind fun f =>
      (taken? (exponentPart cut f.2)).map fun e =>
        (⟨negative, w.1, f.1.getD [], e.1, f.1.isSome⟩, e.2)

theorem taken?_read (s : Octets) :
    taken? (read cut s) =
      if s.head? = some Ascii.minus then readBody cut true s.tail else readBody cut false s := by
  have hbody : taken? (read cut s) = readBody cut (decide (s.head? = some Ascii.minus))
      (if s.head? = some Ascii.minus then s.tail else s) := by
    unfold read readBody
    dsimp only
    cases wholePart cut (if s.head? = some Ascii.minus then s.tail else s) with
    | error _ => rfl
    | ok w =>
      dsimp only [bind, Except.bind, taken?_ok, Option.bind_some]
      cases fractionPart cut w.rest with
      | error _ => rfl
      | ok f =>
        dsimp only [bind, Except.bind, taken?_ok, Option.bind_some]
        cases exponentPart cut f.rest <;> rfl
  rw [hbody]
  by_cases hminus : s.head? = some Ascii.minus
  · simp only [hminus, decide_true, if_true]
  · simp only [hminus, decide_false, if_false]

theorem local_readBody (negative : Bool) : Local (readBody cut negative) := by
  intro s
  let numeral (w : Octets) (f : Option Octets) (e : Option (Bool × Octets)) : Numeral :=
    ⟨negative, w, f.getD [], e, f.isSome⟩
  refine (local_wholePart s).bind (g := fun w t => (taken? (fractionPart cut t)).bind fun f =>
    (taken? (exponentPart cut f.2)).map fun e => (numeral w f.1 e.1, e.2)) fun w r _ => ?_
  refine (local_fractionPart r).bind (g := fun f t => (taken? (exponentPart cut t)).map fun e =>
    (numeral w f e.1, e.2)) fun f r' _ => ?_
  exact (local_exponentPart r').map (numeral w f)

/-- A numeral is read alike in front of everything that does not go on with it. -/
theorem local_read : Local fun s => taken? (read cut s) := by
  intro s
  cases s with
  | nil => simp [LocalAt, taken?_read, readBody, wholePart]
  | cons c r =>
    by_cases hc : c = Ascii.minus
    · refine .cons (fun t => (taken?_read _).trans ?_) (@local_readBody cut true r)
      rw [List.head?_cons, if_pos (congrArg some hc), List.tail_cons]
    · have hbody : LocalAt (readBody cut false) (c :: r) := local_readBody false _
      refine .cons (fun t => (taken?_read _).trans ?_) (hbody.tail ?_)
      · rw [List.head?_cons, if_neg fun h => hc (Option.some.inj h)]
      · intro a r' h
        have hread : taken? (read cut (c :: r)) = readBody cut false (c :: r) :=
          (taken?_read _).trans (if_neg fun h => hc (Option.some.inj h))
        exact (taken?_eq_some_iff.mp (hread.trans h)).1

end Numeral

/-! ### The digits of a number -/

/-- The digits to base ten. -/
def digitOctets (n : Nat) : Octets := (Nat.toDigits 10 n).map fun c => UInt8.ofNat c.toNat

/-- A digit is one octet, between those of `0` and `9`. -/
theorem digit_octet {c : Char} (h : c.isDigit = true) :
    String.utf8EncodeChar c = [UInt8.ofNat c.toNat] ∧ (UInt8.ofNat c.toNat).toNat = c.toNat ∧
      Ascii.isDigit (UInt8.ofNat c.toNat) = true := by
  have hrange : 0x30 ≤ c.toNat ∧ c.toNat ≤ 0x39 := by
    simpa [Char.isDigit, UInt32.le_iff_toNat_le] using h
  have htoNat : (UInt8.ofNat c.toNat).toNat = c.toNat := by
    simp only [UInt8.toNat_ofNat']
    omega
  refine ⟨utf8EncodeChar_ascii (by omega), htoNat, ?_⟩
  simp only [Ascii.isDigit, Bool.and_eq_true, decide_eq_true_eq, UInt8.le_iff_toNat_le, htoNat]
  exact hrange

theorem isDigit_of_mem_toDigits {n : Nat} {c : Char} (h : c ∈ Nat.toDigits 10 n) :
    c.isDigit = true :=
  Nat.isDigit_of_mem_toDigits (by decide) (by decide) h

theorem octets_repr (n : Nat) : Text.octets n.repr = digitOctets n := by
  rw [Nat.repr_eq_ofList_toDigits, Text.octets_ofList, digitOctets, List.map_eq_flatMap]
  exact List.flatMap_congr fun c hc => (digit_octet (isDigit_of_mem_toDigits hc)).1

theorem isDigit_of_mem_digitOctets {n : Nat} {d : UInt8} (h : d ∈ digitOctets n) :
    Ascii.isDigit d = true := by
  obtain ⟨c, hc, rfl⟩ := List.mem_map.mp h
  exact (digit_octet (isDigit_of_mem_toDigits hc)).2.2

theorem digitsValue_map {cs : List Char} (h : ∀ c ∈ cs, c.isDigit = true) (n : Nat) :
    (cs.map fun c => UInt8.ofNat c.toNat).foldl (fun n d => 10 * n + (d.toNat - 0x30)) n =
      Nat.ofDigitChars 10 cs n := by
  induction cs generalizing n with
  | nil => rfl
  | cons c cs ih =>
    rw [List.map_cons, List.foldl_cons, (digit_octet (h c List.mem_cons_self)).2.1,
      ih fun d hd => h d (List.mem_cons_of_mem _ hd), Nat.ofDigitChars_cons]
    rfl

/-- The value of the digits of a number is the number. -/
theorem digitsValue_digitOctets (n : Nat) : Numeral.digitsValue (digitOctets n) = n :=
  (digitsValue_map (fun _ => isDigit_of_mem_toDigits) 0).trans Nat.ofDigitChars_ten_toDigits

/-- No zero stands in front of other digits. -/
theorem head?_digitOctets (n : Nat) (h : 0 < n) :
    ∃ d ds, digitOctets n = d :: ds ∧ d ≠ Ascii.zero := by
  induction n using Nat.strongRecOn with
  | ind n ih =>
    by_cases hn : n < 10
    · have hdigit : ∀ d < 10, 0 < d → UInt8.ofNat (Nat.digitChar d).toNat ≠ Ascii.zero := by decide
      refine ⟨_, [], ?_, hdigit n hn h⟩
      rw [digitOctets, Nat.toDigits_of_lt_base hn]
      rfl
    · obtain ⟨d, ds, hds, hd⟩ := ih (n / 10) (by omega) (by omega)
      refine ⟨d, ds ++ [UInt8.ofNat (Nat.digitChar (n % 10)).toNat], ?_, hd⟩
      rw [digitOctets, Nat.toDigits_of_base_le (by decide) (by omega), List.map_append]
      rw [digitOctets] at hds
      rw [hds]
      rfl

namespace Numeral

variable {cut : Fault}

/-- The digits of a number are read as a numeral without point and exponent. -/
theorem readBody_digitOctets (n : Nat) (negative : Bool) {r : Octets} (hr : EndsNumeral r) :
    readBody cut negative (digitOctets n ++ r) =
      some (⟨negative, digitOctets n, [], none, false⟩, r) := by
  have hwhole : taken? (wholePart cut (digitOctets n ++ r)) = some (digitOctets n, r) := by
    rcases Nat.eq_zero_or_pos n with rfl | hpos
    · rw [show digitOctets 0 = [Ascii.zero] from rfl, List.singleton_append, taken?_wholePart_cons,
        if_pos rfl, if_neg]
      intro hany
      obtain ⟨d, hd, hdigit⟩ := (Option.any_eq_true _ _).mp hany
      rw [(hr d hd).1] at hdigit
      exact Bool.noConfusion hdigit
    · obtain ⟨d, ds, hds, hd⟩ := head?_digitOctets n hpos
      obtain ⟨htake, hdrop⟩ := Taken.takeWhile_append_of_head
        (fun _ => isDigit_of_mem_digitOctets (n := n)) fun c hc => (hr c hc).1
      rw [hds, List.cons_append, taken?_wholePart_cons, if_neg hd, ← List.cons_append, ← hds,
        taken?_someDigits, htake, hdrop, if_neg (by rw [hds]; exact List.cons_ne_nil _ _)]
  unfold readBody
  rw [hwhole, Option.bind_some, fractionPart_absent fun c hc => (hr c hc).2.1, Option.bind_some,
    exponentPart_absent fun c hc => (hr c hc).2.2]
  rfl

end Numeral

/-! ### Integers -/

/-- An integer as it stands in a document. -/
def intOctets : Int → Octets
  | .ofNat n => digitOctets n
  | .negSucc n => Ascii.minus :: digitOctets (n + 1)

theorem octets_toString (i : Int) : Text.octets (toString i) = intOctets i := by
  cases i with
  | ofNat n => exact octets_repr n
  | negSucc n =>
    show Text.octets ("-" ++ (n + 1).repr) = _
    rw [Text.octets_append, octets_repr]
    rfl

theorem exists_digitOctets_eq_cons (n : Nat) :
    ∃ d ds, digitOctets n = d :: ds ∧ Ascii.isDigit d = true := by
  have hne : digitOctets n ≠ [] := by
    rw [digitOctets, Ne, List.map_eq_nil_iff]
    exact Nat.toDigits_ne_nil
  obtain ⟨d, ds, h⟩ := List.exists_cons_of_ne_nil hne
  exact ⟨d, ds, h, isDigit_of_mem_digitOctets (n := n) (by rw [h]; exact List.mem_cons_self)⟩

/-- What begins an integer is neither space nor what closes a list. -/
theorem not_isSpace_of_isDigit {c : UInt8} (h : c = Ascii.minus ∨ Ascii.isDigit c = true) :
    Ascii.isSpace c = false ∧ c ≠ Ascii.closeBracket := by
  rcases h with rfl | h
  · decide
  · constructor
    · rw [Bool.eq_false_iff]
      intro hspace
      simp only [Ascii.isSpace, Bool.or_eq_true, beq_iff_eq] at hspace
      rcases hspace with ((rfl | rfl) | rfl) | rfl <;> exact absurd h (by decide)
    · rintro rfl
      exact absurd h (by decide)

/-- An integer begins with its sign or with a digit. -/
theorem exists_intOctets_eq_cons (i : Int) :
    ∃ c r, intOctets i = c :: r ∧ (c = Ascii.minus ∨ Ascii.isDigit c = true) := by
  cases i with
  | ofNat n =>
    obtain ⟨d, ds, h, hd⟩ := exists_digitOctets_eq_cons n
    exact ⟨d, ds, h, .inr hd⟩
  | negSucc n => exact ⟨_, _, rfl, .inl rfl⟩

theorem IntRange.bounds {range : IntRange} {i : Int} (h : range.holds i = true) :
    -9223372036854775808 ≤ i ∧ i ≤ 18446744073709551615 := by
  cases range <;> simp only [holds, Bool.and_eq_true, decide_eq_true_eq] at h <;> omega

/-- **A written integer of any range is read back.** -/
theorem taken?_readNumber {range : IntRange} {i : Int} (h : range.holds i = true) {r : Octets}
    (hr : EndsNumeral r) : taken? (readNumber (intOctets i ++ r)) = some (.integer i, r) := by
  obtain ⟨hlow, hhigh⟩ := IntRange.bounds h
  have hread : ∃ x : Numeral, taken? (Numeral.read .endsInValue (intOctets i ++ r)) = some (x, r) ∧
      x.number = .ok (.integer i) := by
    cases i with
    | ofNat n =>
      refine ⟨_, (Numeral.taken?_read _).trans ((if_neg ?_).trans
        (Numeral.readBody_digitOctets n false hr)), ?_⟩
      · intro hminus
        obtain ⟨d, ds, hds, hd⟩ := exists_digitOctets_eq_cons n
        rw [intOctets, hds, List.cons_append, List.head?_cons] at hminus
        rw [Option.some.inj hminus] at hd
        exact absurd hd (by decide)
      · have hn : n ≤ Numeral.maxSignificand := Int.ofNat_le.mp hhigh
        simp [Numeral.number, digitsValue_digitOctets, hn]
    | negSucc n =>
      refine ⟨_, (Numeral.taken?_read _).trans ((if_pos rfl).trans
        (Numeral.readBody_digitOctets (n + 1) true hr)), ?_⟩
      have hn : n + 1 ≤ 9223372036854775808 := by omega
      simp [Numeral.number, digitsValue_digitOctets, hn, Int.negSucc_eq]
  obtain ⟨x, hx, hnumber⟩ := hread
  obtain ⟨hlt, hx⟩ := taken?_eq_some_iff.mp hx
  simp only [readNumber, hx, bind, Except.bind, hnumber]
  rfl

end FleetPlan.Json
