/-
A double is known by its text.

Whatever form a decimal is written in, its text has the same `Parts`: digits, perhaps more
digits behind a point, and perhaps an exponent.  `decimalValue` reads the number off such a
text, so texts that are the same stand for one number, and a number for one double.

A point or an exponent is always there.  This tells a double from an integer.
-/
import FleetPlan.Proofs.Decimal.Shortest

namespace FleetPlan.Decimal

/-! ### Reading a text -/

/-- The number that digits with a point among them are. -/
def pointedValue (cs : List Char) : ℚ :=
  Nat.ofDigitChars 10 (cs.filter (· ≠ '.')) 0 / 10 ^ (cs.dropWhile (· ≠ '.')).tail.length

/-- The exponent, from its letter on. -/
def exponentValue : List Char → ℤ
  | 'e' :: '-' :: ds => -(Nat.ofDigitChars 10 ds 0 : ℤ)
  | 'e' :: '+' :: ds => Nat.ofDigitChars 10 ds 0
  | _ => 0

/-- The number that a text stands for. -/
def decimalValue (cs : List Char) : ℚ :=
  pointedValue (cs.takeWhile (· ≠ 'e')) * 10 ^ exponentValue (cs.dropWhile (· ≠ 'e'))

/-- The characters that numbers are written with. -/
def isNumeral (c : Char) : Bool := c.isDigit || c = '.' || c = 'e' || c = '+' || c = '-'

/-- The parts of a text. -/
structure Parts where
  whole : List Char
  /-- The digits behind the point.  Without digits there is no point. -/
  fraction : List Char
  /-- The exponent, if one is written. -/
  scale : Option ℤ
  digits : ∀ c ∈ whole ++ fraction, c.isDigit = true
  whole_ne_nil : whole ≠ []
  /-- There is a point or an exponent. -/
  marked : fraction ≠ [] ∨ scale.isSome

namespace Parts

/-- The text without its exponent. -/
def pointed (p : Parts) : List Char :=
  p.whole ++ if p.fraction.isEmpty then [] else '.' :: p.fraction

def scaleText : Option ℤ → List Char
  | none => []
  | some e => 'e' :: (if e < 0 then '-' else '+') :: Nat.toDigits 10 e.natAbs

def text (p : Parts) : List Char := p.pointed ++ scaleText p.scale

/-- The number that the parts give. -/
def value (p : Parts) : ℚ :=
  Nat.ofDigitChars 10 (p.whole ++ p.fraction) 0 * 10 ^ (p.scale.getD 0 - p.fraction.length)

variable (p : Parts)

theorem ne_of_isDigit {c d : Char} (hc : c.isDigit = true) (hd : d.isDigit = false) : c ≠ d := by
  rintro rfl
  rw [hc] at hd
  exact absurd hd (by decide)

theorem isDigit_of_mem_whole {c : Char} (h : c ∈ p.whole) : c.isDigit = true :=
  p.digits c (List.mem_append_left _ h)

theorem isDigit_of_mem_fraction {c : Char} (h : c ∈ p.fraction) : c.isDigit = true :=
  p.digits c (List.mem_append_right _ h)

theorem mem_pointed {c : Char} (h : c ∈ p.pointed) : c.isDigit = true ∨ c = '.' := by
  rcases List.mem_append.mp h with hwhole | hrest
  · exact .inl (p.isDigit_of_mem_whole hwhole)
  · split at hrest
    · exact absurd hrest List.not_mem_nil
    · rcases List.mem_cons.mp hrest with hpoint | hfraction
      · exact .inr hpoint
      · exact .inl (p.isDigit_of_mem_fraction hfraction)

theorem ne_point_of_mem_whole : ∀ c ∈ p.whole, decide (c ≠ '.') = true :=
  fun _ hc => decide_eq_true (ne_of_isDigit (p.isDigit_of_mem_whole hc) (by decide))

theorem pointedValue_pointed :
    pointedValue p.pointed = Nat.ofDigitChars 10 (p.whole ++ p.fraction) 0 /
      10 ^ p.fraction.length := by
  have hfraction : ∀ c ∈ p.fraction, decide (c ≠ '.') = true :=
    fun _ hc => decide_eq_true (ne_of_isDigit (p.isDigit_of_mem_fraction hc) (by decide))
  have hdrop : p.whole.dropWhile (· ≠ '.') = [] :=
    List.dropWhile_eq_nil_iff.mpr p.ne_point_of_mem_whole
  have hkeep : p.whole.filter (· ≠ '.') = p.whole :=
    List.filter_eq_self.mpr p.ne_point_of_mem_whole
  unfold pointedValue pointed
  split
  · rename_i hempty
    rw [List.isEmpty_iff.mp hempty, List.append_nil, hkeep, hdrop]
    rfl
  · have hpoint : ('.' :: p.fraction).filter (· ≠ '.') = p.fraction := by
      rw [List.filter_cons_of_neg (by decide), List.filter_eq_self.mpr hfraction]
    rw [List.filter_append, hkeep, hpoint, List.dropWhile_append_of_pos p.ne_point_of_mem_whole,
      List.dropWhile_cons_of_neg (by decide), List.tail_cons]

theorem exponentValue_scaleText (scale : Option ℤ) :
    exponentValue (scaleText scale) = scale.getD 0 := by
  cases scale with
  | none => rfl
  | some e =>
    by_cases he : e < 0
    · rw [scaleText, if_pos he, exponentValue, Nat.ofDigitChars_ten_toDigits, Option.getD_some]
      omega
    · rw [scaleText, if_neg he, exponentValue, Nat.ofDigitChars_ten_toDigits, Option.getD_some]
      omega

/-- **The number can be read off the text.** -/
theorem decimalValue_text : decimalValue p.text = p.value := by
  have hpointed : ∀ c ∈ p.pointed, decide (c ≠ 'e') = true := by
    intro c hc
    rcases p.mem_pointed hc with hdigit | rfl
    · exact decide_eq_true (ne_of_isDigit hdigit (by decide))
    · decide
  have hscale : (scaleText p.scale).takeWhile (· ≠ 'e') = [] ∧
      (scaleText p.scale).dropWhile (· ≠ 'e') = scaleText p.scale := by
    cases p.scale <;> exact ⟨rfl, rfl⟩
  unfold decimalValue text
  rw [List.takeWhile_append_of_pos hpointed, List.dropWhile_append_of_pos hpointed, hscale.1,
    hscale.2, List.append_nil, p.pointedValue_pointed, exponentValue_scaleText, value,
    zpow_sub₀ (by norm_num), zpow_natCast]
  ring

theorem isNumeral_of_mem_text {c : Char} (h : c ∈ p.text) : isNumeral c = true := by
  have hdigit {c : Char} (h : c.isDigit = true) : isNumeral c = true := by simp [isNumeral, h]
  rcases List.mem_append.mp h with hpointed | hscale
  · rcases p.mem_pointed hpointed with hc | rfl
    · exact hdigit hc
    · decide
  · cases hp : p.scale with
    | none =>
      rw [hp] at hscale
      exact absurd hscale List.not_mem_nil
    | some e =>
      rw [hp] at hscale
      rcases List.mem_cons.mp hscale with rfl | hscale
      · decide
      · rcases List.mem_cons.mp hscale with rfl | hdigits
        · split <;> decide
        · exact hdigit (Nat.isDigit_of_mem_toDigits (by decide) (by decide) hdigits)

/-- A text begins with a digit. -/
theorem exists_cons : ∃ d rest, p.text = d :: rest ∧ d.isDigit = true := by
  obtain ⟨d, rest, hwhole⟩ := List.exists_cons_of_ne_nil p.whole_ne_nil
  have hd : d.isDigit = true := p.isDigit_of_mem_whole (hwhole ▸ List.mem_cons_self)
  rw [text, pointed, hwhole, List.cons_append, List.cons_append]
  exact ⟨d, _, rfl, hd⟩

/-- A text has something in it that no integer has. -/
theorem exists_mark : ∃ c ∈ p.text, c.isDigit = false ∧ c ≠ '-' := by
  rcases p.marked with hfraction | hscale
  · refine ⟨'.', List.mem_append_left _ (List.mem_append_right _ ?_), by decide, by decide⟩
    rw [if_neg (by simpa using hfraction)]
    exact List.mem_cons_self
  · obtain ⟨e, he⟩ := Option.isSome_iff_exists.mp hscale
    refine ⟨'e', List.mem_append_right _ ?_, by decide, by decide⟩
    rw [he]
    exact List.mem_cons_self

end Parts

/-! ### The text of a decimal -/

namespace Scientific

variable (s : Scientific)

/-- The digits of a decimal as they are written. -/
def chars : List Char := Nat.toDigits 10 s.digits

/-- Where the point is: behind that many digits. -/
def point : ℤ := s.chars.length + s.exponent

variable {s}

theorem isDigit_of_mem_chars {c : Char} (h : c ∈ s.chars) : c.isDigit = true :=
  Nat.isDigit_of_mem_toDigits (by decide) (by decide) h

theorem ofDigitChars_chars : Nat.ofDigitChars 10 s.chars 0 = s.digits :=
  Nat.ofDigitChars_ten_toDigits

theorem chars_ne_nil : s.chars ≠ [] := Nat.toDigits_ne_nil

theorem isDigit_of_mem_replicate {n : ℕ} {c : Char} (h : c ∈ List.replicate n '0') :
    c.isDigit = true := by
  rw [List.eq_of_mem_replicate h]
  rfl

/-- The text has parts, and they give the decimal. -/
def Readable (s : Scientific) : Prop := ∃ p : Parts, s.text.toList = p.text ∧ p.value = s.value

/-! Apart from zero there are four forms: the point is in front of the digits, behind them or
among them, or an exponent is written. -/

theorem readable_zero (h : s.digits = 0) : s.Readable := by
  have hdigits : ∀ c ∈ ['0'] ++ ['0'], c.isDigit = true :=
    fun _ hc => isDigit_of_mem_replicate (n := 2) hc
  refine ⟨⟨['0'], ['0'], none, hdigits, List.cons_ne_nil _ _, .inl (List.cons_ne_nil _ _)⟩, ?_, ?_⟩
  · rw [text, if_pos h]
    rfl
  · rw [value, h]
    simp [Parts.value, Nat.ofDigitChars]

theorem readable_small (h : s.digits ≠ 0) (hpoint : -5 < s.point ∧ s.point ≤ 0) :
    s.Readable := by
  have hdigits : ∀ c ∈ ['0'] ++ (List.replicate (-s.point).toNat '0' ++ s.chars),
      c.isDigit = true := by
    intro c hc
    rcases List.mem_append.mp hc with hc | hc
    · exact isDigit_of_mem_replicate (n := 1) hc
    · exact (List.mem_append.mp hc).elim isDigit_of_mem_replicate isDigit_of_mem_chars
  refine ⟨⟨['0'], List.replicate (-s.point).toNat '0' ++ s.chars, none, hdigits,
    List.cons_ne_nil _ _, .inl (by simp [chars_ne_nil])⟩, ?_, ?_⟩
  · have htext : s.text =
        String.ofList (['0', '.'] ++ List.replicate (-s.point).toNat '0' ++ s.chars) := by
      rw [text, if_neg h]
      exact if_pos hpoint
    rw [htext, String.toList_ofList]
    simp [Parts.text, Parts.pointed, Parts.scaleText, chars_ne_nil]
  · have hnumber : Nat.ofDigitChars 10
        (['0'] ++ (List.replicate (-s.point).toNat '0' ++ s.chars)) 0 = s.digits := by
      rw [Nat.ofDigitChars_append, Nat.ofDigitChars_append, Nat.ofDigitChars_replicate_zero]
      exact ofDigitChars_chars
    have hlength : (0 : ℤ) - (List.replicate (-s.point).toNat '0' ++ s.chars).length =
        s.exponent := by
      rw [List.length_append, List.length_replicate]
      unfold point at hpoint ⊢
      omega
    rw [Parts.value, value]
    dsimp only
    rw [hnumber, Option.getD_none, hlength]

theorem text_of_positional (h : s.digits ≠ 0) (hpoint : 0 < s.point ∧ s.point ≤ 16) :
    s.text = String.ofList (s.chars.take s.point.toNat ++ List.replicate s.exponent.toNat '0' ++
      '.' :: (if (s.chars.drop s.point.toNat).isEmpty then ['0']
        else s.chars.drop s.point.toNat)) := by
  rw [text, if_neg h]
  refine (if_neg ?_).trans (if_pos hpoint)
  exact fun hsmall => absurd (show s.point ≤ 0 from hsmall.2) (not_le.mpr hpoint.1)

/-- A whole number, with a zero behind the point. -/
theorem readable_whole (h : s.digits ≠ 0) (hpoint : 0 < s.point ∧ s.point ≤ 16)
    (hexponent : 0 ≤ s.exponent) : s.Readable := by
  have hdigits : ∀ c ∈ s.chars ++ List.replicate s.exponent.toNat '0' ++ ['0'],
      c.isDigit = true := by
    intro c hc
    rcases List.mem_append.mp hc with hc | hc
    · exact (List.mem_append.mp hc).elim isDigit_of_mem_chars isDigit_of_mem_replicate
    · exact isDigit_of_mem_replicate (n := 1) hc
  refine ⟨⟨s.chars ++ List.replicate s.exponent.toNat '0', ['0'], none, hdigits,
    by simp [chars_ne_nil], .inl (List.cons_ne_nil _ _)⟩, ?_, ?_⟩
  · have hle : s.chars.length ≤ s.point.toNat := by
      unfold point
      omega
    rw [text_of_positional h hpoint, String.toList_ofList, List.take_of_length_le hle,
      List.drop_eq_nil_of_le hle]
    simp [Parts.text, Parts.pointed, Parts.scaleText]
  · have hnumber : Nat.ofDigitChars 10
        (s.chars ++ List.replicate s.exponent.toNat '0' ++ ['0']) 0 =
          s.digits * 10 ^ s.exponent.toNat * 10 := by
      rw [Nat.ofDigitChars_append, Nat.ofDigitChars_append, ofDigitChars_chars,
        Nat.ofDigitChars_replicate_zero]
      simp [Nat.ofDigitChars]
      ring
    rw [Parts.value, value]
    dsimp only
    rw [hnumber]
    have hpower : (10 : ℚ) ^ s.exponent = 10 ^ s.exponent.toNat := by
      rw [← zpow_natCast, Int.toNat_of_nonneg hexponent]
    rw [hpower]
    norm_num
    ring

/-- A number with the point among its digits. -/
theorem readable_mixed (h : s.digits ≠ 0) (hpoint : 0 < s.point ∧ s.point ≤ 16)
    (hexponent : s.exponent < 0) : s.Readable := by
  have hdigits : ∀ c ∈ s.chars.take s.point.toNat ++ s.chars.drop s.point.toNat,
      c.isDigit = true := by
    rw [List.take_append_drop]
    exact fun _ => isDigit_of_mem_chars
  have hlt : s.point.toNat < s.chars.length := by
    unfold point at hpoint ⊢
    omega
  have hfraction : s.chars.drop s.point.toNat ≠ [] := by
    rw [ne_eq, List.drop_eq_nil_iff]
    omega
  have hwhole : s.chars.take s.point.toNat ≠ [] := by
    rw [ne_eq, List.take_eq_nil_iff]
    exact not_or.mpr ⟨by omega, chars_ne_nil⟩
  refine ⟨⟨s.chars.take s.point.toNat, s.chars.drop s.point.toNat, none, hdigits, hwhole,
    .inl hfraction⟩, ?_, ?_⟩
  · rw [text_of_positional h hpoint, String.toList_ofList,
      Int.toNat_of_nonpos hexponent.le, List.replicate_zero, List.append_nil,
      if_neg (by simpa using hfraction)]
    simp [Parts.text, Parts.pointed, Parts.scaleText, hfraction]
  · have hlength : (0 : ℤ) - (s.chars.drop s.point.toNat).length = s.exponent := by
      rw [List.length_drop]
      unfold point at hlt hpoint ⊢
      omega
    rw [Parts.value, value]
    dsimp only
    rw [List.take_append_drop, ofDigitChars_chars, Option.getD_none, hlength]

/-- A number with an exponent. -/
theorem readable_scaled (h : s.digits ≠ 0) (hsmall : ¬(-5 < s.point ∧ s.point ≤ 0))
    (hpositional : ¬(0 < s.point ∧ s.point ≤ 16)) : s.Readable := by
  have hdigits : ∀ c ∈ s.chars.take 1 ++ s.chars.drop 1, c.isDigit = true := by
    rw [List.take_append_drop]
    exact fun _ => isDigit_of_mem_chars
  have hwhole : s.chars.take 1 ≠ [] := by simp [chars_ne_nil]
  refine ⟨⟨s.chars.take 1, s.chars.drop 1, some (s.point - 1), hdigits, hwhole, .inr rfl⟩, ?_, ?_⟩
  · have htext : s.text = String.ofList (s.chars.take 1) ++
        (if s.chars.length ≤ 1 then "" else "." ++ String.ofList (s.chars.drop 1)) ++
        (if s.point ≤ 0 then "e-" else "e+") ++ toString (s.point - 1).natAbs := by
      rw [text, if_neg h]
      exact (if_neg hsmall).trans (if_neg hpositional)
    have hrest : (if s.chars.length ≤ 1 then "" else "." ++ String.ofList (s.chars.drop 1)).toList =
        if (s.chars.drop 1).isEmpty then [] else '.' :: s.chars.drop 1 := by
      simp only [List.isEmpty_iff, List.drop_eq_nil_iff]
      split
      · rfl
      · rw [String.toList_append, String.toList_ofList, String.toList_ofList]
        rfl
    have hmark : (if s.point ≤ 0 then "e-" else "e+").toList =
        ['e', if s.point - 1 < 0 then '-' else '+'] := by
      by_cases hle : s.point ≤ 0
      · rw [if_pos hle, if_pos (by omega)]
        rfl
      · rw [if_neg hle, if_neg (by omega)]
        rfl
    rw [htext, String.toList_append, String.toList_append, String.toList_append, hrest, hmark,
      String.toList_ofList, Nat.toString_eq_repr, Nat.toList_repr, List.append_assoc _ ['e', _]]
    rfl
  · have hlength : s.point - 1 - (s.chars.drop 1).length = s.exponent := by
      have hpos : 0 < s.chars.length := List.length_pos_of_ne_nil chars_ne_nil
      rw [List.length_drop]
      unfold point
      omega
    rw [Parts.value, value]
    dsimp only
    rw [List.take_append_drop, ofDigitChars_chars, Option.getD_some, hlength]

/-- **A decimal can be read off its text.** -/
theorem readable (s : Scientific) : s.Readable := by
  by_cases h : s.digits = 0
  · exact readable_zero h
  by_cases hsmall : -5 < s.point ∧ s.point ≤ 0
  · exact readable_small h hsmall
  by_cases hpositional : 0 < s.point ∧ s.point ≤ 16
  · rcases le_or_gt 0 s.exponent with hexponent | hexponent
    · exact readable_whole h hpositional hexponent
    · exact readable_mixed h hpositional hexponent
  · exact readable_scaled h hsmall hpositional

theorem value_eq_of_text_eq {t : Scientific} (h : s.text = t.text) : s.value = t.value := by
  obtain ⟨p, hs, hp⟩ := s.readable
  obtain ⟨q, ht, hq⟩ := t.readable
  rw [← hp, ← hq, ← p.decimalValue_text, ← q.decimalValue_text, ← hs, ← ht, h]

end Scientific

/-! ### The text of a double -/

namespace Double

/-- The text is that of the magnitude, with the sign in front of it. -/
theorem toList_text (d : Double) : ∃ p : Parts, d.magnitude.shortest.text.toList = p.text ∧
    d.text.toList = (if d.negative then ['-'] else []) ++ p.text := by
  obtain ⟨p, hp, -⟩ := d.magnitude.shortest.readable
  refine ⟨p, hp, ?_⟩
  rw [text, String.toList_append, hp]
  split <;> rfl

theorem isNumeral_of_mem_text {d : Double} {c : Char} (h : c ∈ d.text.toList) :
    isNumeral c = true := by
  obtain ⟨p, -, htext⟩ := d.toList_text
  rw [htext] at h
  rcases List.mem_append.mp h with hsign | hp
  · split at hsign
    · rw [List.mem_singleton.mp hsign]
      rfl
    · exact absurd hsign List.not_mem_nil
  · exact p.isNumeral_of_mem_text hp

/-- The text begins with a digit or with the sign. -/
theorem exists_cons_text (d : Double) :
    ∃ c rest, d.text.toList = c :: rest ∧ (c.isDigit = true ∨ c = '-') := by
  obtain ⟨p, -, htext⟩ := d.toList_text
  rw [htext]
  split
  · exact ⟨'-', p.text, rfl, .inr rfl⟩
  · obtain ⟨c, rest, hp, hc⟩ := p.exists_cons
    exact ⟨c, rest, hp, .inl hc⟩

theorem exists_mark_of_text (d : Double) : ∃ c ∈ d.text.toList, c.isDigit = false ∧ c ≠ '-' := by
  obtain ⟨p, -, htext⟩ := d.toList_text
  obtain ⟨c, hc, hmark⟩ := p.exists_mark
  exact ⟨c, htext ▸ List.mem_append_right _ hc, hmark⟩

/-- **A double is known by its text.** -/
theorem eq_of_text_eq {d e : Double} (hd : d.magnitude.Canonical) (he : e.magnitude.Canonical)
    (h : d.text = e.text) : d = e := by
  obtain ⟨p, hp, hdtext⟩ := d.toList_text
  obtain ⟨q, hq, hetext⟩ := e.toList_text
  rw [h, hetext] at hdtext
  obtain ⟨c, rest, hpc, hc⟩ := p.exists_cons
  obtain ⟨c', rest', hqc, hc'⟩ := q.exists_cons
  -- Only a sign stands in front of the first digit.
  have hsign : d.negative = e.negative ∧ p.text = q.text := by
    rw [hpc, hqc] at hdtext ⊢
    cases hdneg : d.negative <;> cases heneg : e.negative <;> simp only [hdneg, heneg] at hdtext
    · exact ⟨rfl, hdtext.symm⟩
    · obtain ⟨rfl, -⟩ := List.cons.inj hdtext
      exact absurd hc (by decide)
    · obtain ⟨rfl, -⟩ := List.cons.inj hdtext
      exact absurd hc' (by decide)
    · exact ⟨rfl, (List.cons.inj hdtext).2.symm⟩
  have hvalue : d.magnitude.shortest.value = e.magnitude.shortest.value := by
    refine Scientific.value_eq_of_text_eq (String.toList_inj.mp ?_)
    rw [hp, hq, hsign.2]
  cases d
  cases e
  obtain rfl := hsign.1
  obtain rfl := Magnitude.eq_of_shortest_value hd he hvalue
  rfl

end Double

end FleetPlan.Decimal
