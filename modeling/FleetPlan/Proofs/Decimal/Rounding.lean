/-
Every double that is read has one form.

A magnitude could be given by many mantissas and exponents.  `Canonical` leaves one: the
mantissa has 53 bits, or fewer at the lowest exponent.  Rounding chooses the unit so that
this comes out (`unitOf_spec`), and whatever is made from a numeral is made by rounding,
through products and quotients with powers of ten.  The powers that are used are not zero,
so nothing is ever divided by zero.

Quotients of natural numbers are compared as rationals, where units of `2 ^ e` and
`10 ^ k` are powers with an integer exponent.
-/
import FleetPlan.Decimal.Binary
import Mathlib

namespace FleetPlan.Decimal

/-! ### Quotients and powers -/

section

variable {n d k : Nat}

theorem div_lt_iff_ratio (hd : 0 < d) : n / d < k ↔ (n : ℚ) / d < k := by
  have hd' : (0 : ℚ) < d := by exact_mod_cast hd
  rw [Nat.div_lt_iff_lt_mul hd, div_lt_iff₀ hd']
  exact_mod_cast Iff.rfl

theorem le_div_iff_ratio (hd : 0 < d) : k ≤ n / d ↔ (k : ℚ) ≤ (n : ℚ) / d := by
  have hd' : (0 : ℚ) < d := by exact_mod_cast hd
  rw [Nat.le_div_iff_mul_le hd, le_div_iff₀ hd']
  exact_mod_cast Iff.rfl

/-- A power with an integer exponent, as a quotient of powers with natural ones. -/
theorem pow_toNat_div (b : ℚ) (e : ℤ) : b ^ e.toNat / b ^ (-e).toNat = b ^ e := by
  rcases Int.le_total 0 e with he | he
  · rw [Int.toNat_of_nonpos (Int.neg_nonpos_of_nonneg he), pow_zero, div_one, ← zpow_natCast,
      Int.toNat_of_nonneg he]
  · rw [Int.toNat_of_nonpos he, pow_zero, one_div, ← zpow_natCast,
      Int.toNat_of_nonneg (Int.neg_nonneg_of_nonpos he), zpow_neg, inv_inv]

end

theorem twoTo_pos (n : Nat) : 0 < twoTo n := Nat.pow_pos (by decide)

theorem tenTo_pos (n : Nat) : 0 < tenTo n := Nat.pow_pos (by decide)

@[simp] theorem cast_twoTo (n : Nat) : (twoTo n : ℚ) = 2 ^ n := by
  simp [twoTo]

@[simp] theorem cast_tenTo (n : Nat) : (tenTo n : ℚ) = 10 ^ n := by
  simp [tenTo]

namespace Magnitude

variable {num den : Nat} {x y : Magnitude}

/-- The one form of a magnitude. -/
structure Canonical (x : Magnitude) : Prop where
  mantissa_lt : x.mantissa < 2 ^ 53
  lowest_le : lowest ≤ x.exponent
  /-- All 53 bits are used, unless the exponent cannot be lower. -/
  full : 2 ^ 52 ≤ x.mantissa ∨ x.exponent = lowest

theorem canonical_zero : zero.Canonical := ⟨by decide, by decide, .inr rfl⟩

/-! ### Rounding -/

theorem inUnits_pos (num : Nat) (hden : 0 < den) (e : ℤ) : 0 < (inUnits num den e).2 :=
  Nat.mul_pos hden (twoTo_pos _)

theorem inUnits_ratio (num den : Nat) (e : ℤ) :
    ((inUnits num den e).1 : ℚ) / (inUnits num den e).2 = (num : ℚ) / den / 2 ^ e := by
  rw [inUnits, ← pow_toNat_div 2 e]
  push_cast [cast_twoTo]
  field_simp

/-- The ratio of two numbers lies between powers of two that their logarithms tell. -/
theorem ratio_bounds (hnum : num ≠ 0) (hden : den ≠ 0) :
    (2 : ℚ) ^ ((Nat.log2 num : ℤ) - Nat.log2 den - 1) < (num : ℚ) / den ∧
      (num : ℚ) / den < 2 ^ ((Nat.log2 num : ℤ) - Nat.log2 den + 1) := by
  have hden' : (0 : ℚ) < den := by exact_mod_cast Nat.pos_of_ne_zero hden
  have hnumLow : (2 : ℚ) ^ (Nat.log2 num : ℤ) ≤ num := by
    exact_mod_cast Nat.log2_self_le hnum
  have hnumHigh : (num : ℚ) < 2 ^ ((Nat.log2 num : ℤ) + 1) := by
    exact_mod_cast Nat.lt_log2_self
  have hdenLow : (2 : ℚ) ^ (Nat.log2 den : ℤ) ≤ den := by
    exact_mod_cast Nat.log2_self_le hden
  have hdenHigh : (den : ℚ) < 2 ^ ((Nat.log2 den : ℤ) + 1) := by
    exact_mod_cast Nat.lt_log2_self
  constructor
  · rw [lt_div_iff₀ hden']
    calc (2 : ℚ) ^ ((Nat.log2 num : ℤ) - Nat.log2 den - 1) * den
        < 2 ^ ((Nat.log2 num : ℤ) - Nat.log2 den - 1) * 2 ^ ((Nat.log2 den : ℤ) + 1) := by gcongr
      _ = 2 ^ (Nat.log2 num : ℤ) := by rw [← zpow_add₀ two_ne_zero]; congr 1; ring
      _ ≤ num := hnumLow
  · rw [div_lt_iff₀ hden']
    calc (num : ℚ) < 2 ^ ((Nat.log2 num : ℤ) + 1) := hnumHigh
      _ = 2 ^ ((Nat.log2 num : ℤ) - Nat.log2 den + 1) * 2 ^ (Nat.log2 den : ℤ) := by
        rw [← zpow_add₀ two_ne_zero]; congr 1; ring
      _ ≤ 2 ^ ((Nat.log2 num : ℤ) - Nat.log2 den + 1) * den := by gcongr

/-- In its unit a number has 53 bits, or fewer at the lowest unit. -/
theorem unitOf_spec (hnum : num ≠ 0) (hden : den ≠ 0) :
    lowest ≤ unitOf num den ∧ (num : ℚ) / den / 2 ^ unitOf num den < 2 ^ 53 ∧
      (2 ^ 52 ≤ (num : ℚ) / den / 2 ^ unitOf num den ∨ unitOf num den = lowest) := by
  obtain ⟨hlow, hhigh⟩ := ratio_bounds hnum hden
  set v : ℚ := (num : ℚ) / den
  set e : ℤ := (Nat.log2 num : ℤ) - Nat.log2 den - 53 with he
  have hlow' : 2 ^ 52 < v / 2 ^ e := by
    rw [lt_div_iff₀ (by positivity)]
    refine lt_of_eq_of_lt ?_ hlow
    rw [← zpow_natCast, ← zpow_add₀ two_ne_zero, he]
    congr 1
    push_cast
    ring
  have hhigh' : v / 2 ^ e < 2 ^ 54 := by
    rw [div_lt_iff₀ (by positivity)]
    refine lt_of_lt_of_eq hhigh ?_
    rw [← zpow_natCast, ← zpow_add₀ two_ne_zero, he]
    congr 1
    push_cast
    ring
  -- The unit before the lowest one is taken into account.
  obtain ⟨e', he', hfull, hfits⟩ : ∃ e', unitOf num den = max lowest e' ∧
      2 ^ 52 ≤ v / 2 ^ e' ∧ v / 2 ^ e' < 2 ^ 53 := by
    have hratio : ((inUnits num den e).1 : ℚ) / (inUnits num den e).2 = v / 2 ^ e :=
      inUnits_ratio num den e
    have hsmall := div_lt_iff_ratio (n := (inUnits num den e).1) (k := twoTo 53)
      (inUnits_pos num (Nat.pos_of_ne_zero hden) e)
    rw [hratio, cast_twoTo] at hsmall
    have hunit : unitOf num den = max lowest
        (if (inUnits num den e).1 / (inUnits num den e).2 < twoTo 53 then e else e + 1) := rfl
    rw [hunit]
    by_cases hfits : (inUnits num den e).1 / (inUnits num den e).2 < twoTo 53
    · exact ⟨e, by rw [if_pos hfits], hlow'.le, hsmall.mp hfits⟩
    · refine ⟨e + 1, by rw [if_neg hfits], ?_⟩
      have hlarge : 2 ^ 53 ≤ v / 2 ^ e := not_lt.mp (mt hsmall.mpr hfits)
      have hhalf : v / 2 ^ (e + 1) = v / 2 ^ e / 2 := by
        rw [zpow_add_one₀ two_ne_zero, ← div_div]
      rw [hhalf]
      constructor <;> linarith
  rw [he']
  rcases le_total lowest e' with hle | hle
  · rw [max_eq_right hle]
    exact ⟨hle, hfits, .inl hfull⟩
  · rw [max_eq_left hle]
    refine ⟨le_rfl, lt_of_le_of_lt ?_ hfits, .inr rfl⟩
    have hv : 0 ≤ v := by positivity
    gcongr
    norm_num

/-- The quotient is rounded down or up, by a half at most. -/
theorem roundQuotient_cases (n d : Nat) :
    roundQuotient n d = n / d ∧ 2 * (n % d) ≤ d ∨
      roundQuotient n d = n / d + 1 ∧ d ≤ 2 * (n % d) := by
  unfold roundQuotient
  dsimp only
  split_ifs <;> omega

/-- A mantissa that rounding has brought to 54 bits is a power of two in the next unit. -/
def carried (m : Nat) (e : ℤ) : Magnitude :=
  if m = twoTo 53 then ⟨twoTo 52, e + 1⟩ else ⟨m, e⟩

theorem nearest_eq_some (hnum : num ≠ 0) (h : nearest num den = some x) :
    x = carried (roundQuotient (inUnits num den (unitOf num den)).1
      (inUnits num den (unitOf num den)).2) (unitOf num den) := by
  rw [nearest, if_neg hnum] at h
  unfold carried
  dsimp only at h
  split at h <;> rename_i hcarry <;> dsimp only at h <;> split at h
  · exact nomatch h
  · rw [if_pos hcarry]
    exact (Option.some.inj h).symm
  · exact nomatch h
  · rw [if_neg hcarry]
    exact (Option.some.inj h).symm

/-- **Rounding gives the one form of a magnitude.** -/
theorem nearest_canonical (hden : den ≠ 0) (h : nearest num den = some x) : x.Canonical := by
  by_cases hnum : num = 0
  · rw [nearest, if_pos hnum] at h
    exact Option.some.inj h ▸ canonical_zero
  · obtain ⟨hlowest, hfits, hfull⟩ := unitOf_spec hnum hden
    rw [← inUnits_ratio] at hfits hfull
    rw [nearest_eq_some hnum h]
    set e := unitOf num den
    have hpos : 0 < (inUnits num den e).2 := inUnits_pos num (Nat.pos_of_ne_zero hden) e
    set n := (inUnits num den e).1
    set d := (inUnits num den e).2
    have hquotient : n / d < 2 ^ 53 := (div_lt_iff_ratio hpos).mpr (by exact_mod_cast hfits)
    have hbits : 2 ^ 52 ≤ n / d ∨ e = lowest :=
      hfull.imp_left fun hfull => (le_div_iff_ratio hpos).mpr (by exact_mod_cast hfull)
    have hround : n / d ≤ roundQuotient n d ∧ roundQuotient n d ≤ n / d + 1 := by
      rcases roundQuotient_cases n d with ⟨hround, -⟩ | ⟨hround, -⟩ <;> rw [hround] <;> omega
    have hpower : twoTo 53 = 2 ^ 53 := rfl
    unfold carried
    split
    · exact ⟨show twoTo 52 < 2 ^ 53 by decide, hlowest.trans (Int.le_add_one le_rfl), .inl le_rfl⟩
    · rename_i hcarry
      rw [hpower] at hcarry
      exact ⟨by dsimp only; omega, hlowest, hbits.imp_left fun hfull => hfull.trans hround.1⟩

theorem getD_canonical {found : Option Magnitude} (h : ∀ x, found = some x → x.Canonical) :
    (found.getD zero).Canonical := by
  cases found with
  | none => exact canonical_zero
  | some x => exact h x rfl

/-! ### Products and quotients -/

theorem numerator_ne_zero (h : x.mantissa ≠ 0) : x.numerator ≠ 0 :=
  Nat.mul_ne_zero h (twoTo_pos _).ne'

theorem denominator_ne_zero (x : Magnitude) : x.denominator ≠ 0 := (twoTo_pos _).ne'

theorem times_canonical {z : Magnitude} (h : x.times y = some z) : z.Canonical :=
  nearest_canonical (Nat.mul_ne_zero x.denominator_ne_zero y.denominator_ne_zero) h

theorem dividedBy_canonical {z : Magnitude} (hy : y.mantissa ≠ 0) (h : x.dividedBy y = some z) :
    z.Canonical :=
  nearest_canonical (Nat.mul_ne_zero x.denominator_ne_zero (numerator_ne_zero hy)) h

/-- The powers of ten that are used as doubles are not zero. -/
theorem tenPower_ne_zero : ∀ n ≤ tenPowers, (tenPower n).mantissa ≠ 0 := by
  decide +kernel

theorem divTen_canonical (hx : x.Canonical) (n : Nat) : (x.divTen n).Canonical := by
  induction x, n using divTen.induct with
  | case1 x n hzero =>
    rw [divTen, if_pos hzero]
    exact hx
  | case2 x n hzero hle =>
    rw [divTen, if_neg hzero, if_pos hle]
    exact getD_canonical fun _ => dividedBy_canonical (tenPower_ne_zero n hle)
  | case3 x n hzero hle ih =>
    rw [divTen, if_neg hzero, if_neg hle]
    exact ih (getD_canonical fun _ => dividedBy_canonical (tenPower_ne_zero _ le_rfl))

/-- **What is read from a decimal is in the one form.** -/
theorem ofDecimal_canonical {significand : Nat} {exponent : ℤ}
    (h : ofDecimal significand exponent = some x) : x.Canonical := by
  unfold ofDecimal at h
  split at h
  · exact nomatch h
  · rename_i y hnearest
    have hy : y.Canonical := nearest_canonical one_ne_zero hnearest
    split at h
    · exact Option.some.inj h ▸ divTen_canonical hy _
    · split at h
      · exact times_canonical h
      · split at h
        · exact Option.some.inj h ▸ hy
        · exact nomatch h

end Magnitude

end FleetPlan.Decimal
