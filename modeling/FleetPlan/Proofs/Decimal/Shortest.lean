/-
A double is known by its shortest decimal.

The numbers that round to a double form an interval around it (`covers_iff`).  The
intervals of two doubles have no number in common (`eq_of_rounds`): where they meet, the
midpoint belongs to the one with the even mantissa, also where the unit changes.  And the
search always ends with a decimal of the interval (`rounds_shortest`).  The last grid
is finer than the interval: with seventeen digits its spacing is less than a last place,
since a mantissa is less than `10 ^ 16`, so the point nearest to the double lies close
enough even on the narrow side of a power of two.
-/
import FleetPlan.Decimal.Shortest
import FleetPlan.Proofs.Decimal.Rounding

namespace FleetPlan.Decimal

/-! ### Values -/

/-- The number that a decimal is. -/
def Scientific.value (s : Scientific) : ℚ := s.digits * 10 ^ s.exponent

/-- The number that a magnitude is. -/
def Magnitude.value (x : Magnitude) : ℚ := x.mantissa * 2 ^ x.exponent

namespace Scientific

theorem ratio (s : Scientific) : (s.numerator : ℚ) / s.denominator = s.value := by
  rw [numerator, denominator, value, ← pow_toNat_div 10 s.exponent]
  push_cast [cast_tenTo]
  rw [mul_div_assoc]

theorem denominator_pos (s : Scientific) : 0 < s.denominator := tenTo_pos _

/-- Leaving zeros out at the end changes nothing. -/
theorem value_stripped (s : Scientific) : s.stripped.value = s.value := by
  induction s using stripped.induct with
  | case1 s h ih =>
    have hten : ((10 * (s.digits / 10) : ℕ) : ℚ) = s.digits := by
      exact_mod_cast Nat.mul_div_cancel' (Nat.dvd_of_mod_eq_zero h.2)
    rw [stripped, dif_pos h, ih, value, value, zpow_add_one₀ (by norm_num), ← hten]
    push_cast
    ring
  | case2 s h =>
    rw [stripped, dif_neg h]

end Scientific

namespace Magnitude

variable {x y : Magnitude} {s : Scientific}

theorem ratio (x : Magnitude) : (x.numerator : ℚ) / x.denominator = x.value := by
  rw [numerator, denominator, value, ← pow_toNat_div 2 x.exponent]
  push_cast [cast_twoTo]
  rw [mul_div_assoc]

/-! ### The interval of a double -/

/-- How far the interval goes below the double, in quarters of the last place. -/
def below (x : Magnitude) : ℚ := if x.atBoundary then 1 else 2

theorem atBoundary_iff : x.atBoundary = true ↔ x.mantissa = 2 ^ 52 ∧ lowest < x.exponent := by
  rw [atBoundary, Bool.and_eq_true, decide_eq_true_eq, decide_eq_true_eq]
  rfl

/-- A number in quarters of the last place of a double. -/
def quarters (x : Magnitude) (v : ℚ) : ℚ := 4 * v / 2 ^ x.exponent

/-- A number rounds to a double: it lies in the interval around the double. -/
structure Rounds (x : Magnitude) (v : ℚ) : Prop where
  low : 4 * x.mantissa - x.below ≤ x.quarters v
  high : x.quarters v ≤ 4 * x.mantissa + 2
  /-- The ends belong to the interval only if the mantissa is even. -/
  strict : x.mantissa % 2 = 1 →
    4 * x.mantissa - x.below ≠ x.quarters v ∧ x.quarters v ≠ 4 * x.mantissa + 2

/-- A decimal is covered just when it rounds to the double. -/
theorem covers_iff (hx : x.mantissa ≠ 0) : x.covers s = true ↔ x.Rounds s.value := by
  obtain ⟨left, right, hunits⟩ : ∃ left right,
      inUnits (s.numerator * 4) s.denominator x.exponent = (left, right) := ⟨_, _, rfl⟩
  have hpos : (0 : ℚ) < right := by
    have hpos := inUnits_pos (s.numerator * 4) s.denominator_pos x.exponent
    rw [hunits] at hpos
    exact_mod_cast hpos
  have hratio : x.quarters s.value = left / right := by
    have hratio := inUnits_ratio (s.numerator * 4) s.denominator x.exponent
    rw [hunits] at hratio
    rw [hratio, quarters, ← s.ratio]
    push_cast
    ring
  have hlow : 4 * (x.mantissa : ℚ) - x.below =
      ((4 * x.mantissa - (if x.atBoundary then 1 else 2) : ℕ) : ℚ) := by
    unfold below
    split <;> rw [Nat.cast_sub (by omega)] <;> push_cast <;> ring
  have hhigh : 4 * (x.mantissa : ℚ) + 2 = ((4 * x.mantissa + 2 : ℕ) : ℚ) := by push_cast; ring
  have hiff : x.Rounds s.value ↔ (if x.mantissa % 2 = 0 then
      4 * x.mantissa - x.below ≤ x.quarters s.value ∧ x.quarters s.value ≤ 4 * x.mantissa + 2
    else
      4 * x.mantissa - x.below < x.quarters s.value ∧
        x.quarters s.value < 4 * x.mantissa + 2) := by
    split
    · rename_i heven
      exact ⟨fun h => ⟨h.low, h.high⟩, fun h => ⟨h.1, h.2, fun hodd => by omega⟩⟩
    · rename_i hodd
      constructor
      · intro h
        obtain ⟨hlow, hhigh⟩ := h.strict (by omega)
        exact ⟨lt_of_le_of_ne h.low hlow, lt_of_le_of_ne h.high hhigh⟩
      · exact fun h => ⟨h.1.le, h.2.le, fun _ => ⟨h.1.ne, h.2.ne⟩⟩
  rw [hiff, hratio, hlow, hhigh, le_div_iff₀ hpos, div_le_iff₀ hpos, lt_div_iff₀ hpos,
    div_lt_iff₀ hpos]
  unfold covers
  rw [hunits]
  dsimp only
  split
  · rw [Bool.and_eq_true, decide_eq_true_eq, decide_eq_true_eq]
    exact_mod_cast Iff.rfl
  · rw [Bool.and_eq_true, decide_eq_true_eq, decide_eq_true_eq]
    exact_mod_cast Iff.rfl

theorem below_le_two (x : Magnitude) : x.below ≤ 2 := by
  unfold below
  split <;> norm_num

/-- What rounds to a double that is not zero is not zero. -/
theorem Rounds.pos {v : ℚ} (h : x.Rounds v) (hx : x.mantissa ≠ 0) : 0 < v := by
  have hone : (1 : ℚ) ≤ x.mantissa := by exact_mod_cast Nat.one_le_iff_ne_zero.mpr hx
  have hquarters : 0 < x.quarters v := by linarith [h.low, x.below_le_two]
  have hunit : (0 : ℚ) < 2 ^ x.exponent := by positivity
  rw [quarters, lt_div_iff₀ hunit] at hquarters
  linarith

/-! ### Different doubles -/

theorem Canonical.below_eq_two (hx : x.Canonical)
    (hexponent : x.exponent = y.exponent) (hlt : x.mantissa < y.mantissa) : y.below = 2 := by
  have hnot : ¬y.atBoundary = true := by
    rw [atBoundary_iff]
    rintro ⟨hpower, hlowest⟩
    rcases hx.full with hfull | hexp
    · omega
    · omega
  rw [below, if_neg hnot]

/-- Two mantissas with one exponent: only neighbours meet, and one of them is odd. -/
theorem not_rounds_of_exponent_eq {v : ℚ} (hx : x.Canonical)
    (hexponent : x.exponent = y.exponent) (hlt : x.mantissa < y.mantissa) (hxv : x.Rounds v)
    (hyv : y.Rounds v) : False := by
  have hlow := hyv.low
  rw [hx.below_eq_two hexponent hlt] at hlow
  have hquarters : y.quarters v = x.quarters v := by rw [quarters, quarters, hexponent]
  rw [hquarters] at hlow
  have hle : (x.mantissa : ℚ) + 1 ≤ y.mantissa := by exact_mod_cast hlt
  have heq : (y.mantissa : ℚ) = x.mantissa + 1 := by linarith [hxv.high]
  have hnext : y.mantissa = x.mantissa + 1 := by exact_mod_cast heq
  rcases Nat.mod_two_eq_zero_or_one x.mantissa with heven | hodd
  · refine (hyv.strict (by omega)).1 ?_
    rw [hx.below_eq_two hexponent hlt, hquarters]
    linarith [hxv.high]
  · exact (hxv.strict hodd).2 (by linarith [hxv.high])

/-- A lower exponent: the interval ends where that of the other double can begin at most. -/
theorem not_rounds_of_exponent_lt {v : ℚ} (hx : x.Canonical) (hy : y.Canonical)
    (hlt : x.exponent < y.exponent) (hxv : x.Rounds v) (hyv : y.Rounds v) : False := by
  have hfull : 2 ^ 52 ≤ y.mantissa := hy.full.resolve_right (by have := hx.lowest_le; omega)
  have hfullQ : (2 ^ 52 : ℚ) ≤ y.mantissa := by exact_mod_cast hfull
  have hbits : (x.mantissa : ℚ) + 1 ≤ 2 ^ 53 := by exact_mod_cast hx.mantissa_lt
  -- In quarters of the upper unit, the upper interval begins at `2 ^ 54 - 1` or above.
  have hbegin : 2 ^ 54 - 1 ≤ y.quarters v := by
    have hlow := hyv.low
    rcases eq_or_ne y.mantissa (2 ^ 52) with hpower | hpower
    · have hbelow : y.below = 1 := by
        rw [below, if_pos (atBoundary_iff.mpr ⟨hpower, hx.lowest_le.trans_lt hlt⟩)]
      rw [hbelow] at hlow
      linarith
    · have hmore : (2 ^ 52 : ℚ) + 1 ≤ y.mantissa := by
        exact_mod_cast Nat.lt_of_le_of_ne hfull (Ne.symm hpower)
      linarith [y.below_le_two]
  have hscale : 2 * y.quarters v ≤ x.quarters v := by
    have hv : 0 < v := hyv.pos (by omega)
    have hunits : (2 : ℚ) * 2 ^ x.exponent ≤ 2 ^ y.exponent := by
      rw [← zpow_one_add₀ two_ne_zero]
      exact zpow_le_zpow_right₀ (by norm_num) (by omega)
    rw [quarters, quarters, ← mul_div_assoc, div_le_div_iff₀ (by positivity) (by positivity)]
    nlinarith
  have hend : x.quarters v = 4 * x.mantissa + 2 := by linarith [hxv.high]
  have hlast : (x.mantissa : ℚ) + 1 = 2 ^ 53 := by linarith [hxv.high]
  have hmantissa : x.mantissa + 1 = 2 ^ 53 := by exact_mod_cast hlast
  exact (hxv.strict (by omega)).2 hend

/-- **No number rounds to two doubles.** -/
theorem eq_of_rounds {v : ℚ} (hx : x.Canonical) (hy : y.Canonical) (hxv : x.Rounds v)
    (hyv : y.Rounds v) : x = y := by
  rcases lt_trichotomy x.exponent y.exponent with hlt | hexponent | hgt
  · exact (not_rounds_of_exponent_lt hx hy hlt hxv hyv).elim
  · rcases lt_trichotomy x.mantissa y.mantissa with hlt | hmantissa | hgt
    · exact (not_rounds_of_exponent_eq hx hexponent hlt hxv hyv).elim
    · cases x
      cases y
      simp_all
    · exact (not_rounds_of_exponent_eq hy hexponent.symm hgt hyv hxv).elim
  · exact (not_rounds_of_exponent_lt hy hx hgt hyv hxv).elim

/-! ### The search -/

theorem pow_length_toDigits_le {n : Nat} (hn : n ≠ 0) :
    10 ^ ((Nat.toDigits 10 n).length - 1) ≤ n := by
  by_contra hlt
  have hpos : 0 < (Nat.toDigits 10 n).length := Nat.length_toDigits_pos
  rcases Nat.eq_zero_or_pos ((Nat.toDigits 10 n).length - 1) with hzero | hmore
  · rw [hzero] at hlt
    omega
  · have := (Nat.length_toDigits_le_iff (by decide) hmore).mpr (not_le.mp hlt)
    omega

theorem lt_pow_length_toDigits (n : Nat) : n < 10 ^ (Nat.toDigits 10 n).length :=
  (Nat.length_toDigits_le_iff (by decide) Nat.length_toDigits_pos).mp le_rfl

/-- The first grid is not coarser than the double is large. -/
theorem pow_decade_le (hx : x.mantissa ≠ 0) : 10 ^ x.decade ≤ x.value := by
  have hden : (0 : ℚ) < x.denominator := by
    exact_mod_cast Nat.pos_of_ne_zero x.denominator_ne_zero
  have hnum : 0 < x.numerator := Nat.pos_of_ne_zero (numerator_ne_zero hx)
  rw [← x.ratio, le_div_iff₀ hden]
  unfold decade
  split
  · rename_i hle
    set n := x.numerator / x.denominator with hn
    have hne : n ≠ 0 := (Nat.div_pos hle (Nat.pos_of_ne_zero x.denominator_ne_zero)).ne'
    have hpos : 0 < (Nat.toDigits 10 n).length := Nat.length_toDigits_pos
    have hexponent : ((Nat.toDigits 10 n).length : ℤ) - 1 =
        (((Nat.toDigits 10 n).length - 1 : ℕ) : ℤ) := by omega
    have hwhole : 10 ^ ((Nat.toDigits 10 n).length - 1) * x.denominator ≤ x.numerator :=
      (Nat.mul_le_mul_right _ (pow_length_toDigits_le hne)).trans (Nat.div_mul_le_self _ _)
    rw [hexponent, zpow_natCast]
    exact_mod_cast hwhole
  · have hwhole : x.denominator ≤
        x.numerator * 10 ^ (Nat.toDigits 10 ((x.denominator - 1) / x.numerator)).length := by
      have hlt := (Nat.div_lt_iff_lt_mul hnum).mp
        (lt_pow_length_toDigits ((x.denominator - 1) / x.numerator))
      rw [Nat.mul_comm] at hlt
      omega
    rw [zpow_neg, zpow_natCast, inv_mul_le_iff₀ (by positivity), mul_comm]
    exact_mod_cast hwhole

/-- A quotient is rounded by a half at most. -/
theorem abs_roundQuotient_sub_le {n d : Nat} (hd : 0 < d) :
    |(roundQuotient n d : ℚ) - n / d| ≤ 1 / 2 := by
  have hd' : (0 : ℚ) < d := by exact_mod_cast hd
  have hratio : (n : ℚ) / d = (n / d : ℕ) + ((n % d : ℕ) : ℚ) / d := by
    have hn : (n : ℚ) = d * (n / d : ℕ) + (n % d : ℕ) := by
      exact_mod_cast (Nat.div_add_mod n d).symm
    rw [add_div' _ _ _ hd'.ne', hn, mul_comm]
  have hrest : 0 ≤ ((n % d : ℕ) : ℚ) / d := by positivity
  have hrest' : ((n % d : ℕ) : ℚ) / d < 1 := by
    rw [div_lt_one hd']
    exact_mod_cast Nat.mod_lt n hd
  rw [hratio, abs_le]
  rcases roundQuotient_cases n d with ⟨hround, hle⟩ | ⟨hround, hle⟩
  · have hhalf : ((n % d : ℕ) : ℚ) / d ≤ 1 / 2 := by
      rw [div_le_div_iff₀ hd' two_pos]
      exact_mod_cast (by omega : n % d * 2 ≤ 1 * d)
    rw [hround]
    constructor <;> linarith
  · have hhalf : 1 / 2 ≤ ((n % d : ℕ) : ℚ) / d := by
      rw [div_le_div_iff₀ two_pos hd']
      exact_mod_cast (by omega : 1 * d ≤ n % d * 2)
    rw [hround]
    push_cast
    constructor <;> linarith

/-- Of the neighbours on a grid the first is the nearest point of the grid. -/
theorem exists_neighbours (x : Magnitude) (k : ℤ) : ∃ s other, x.neighbours k = [s, other] ∧
    |s.value - x.value| ≤ 10 ^ k / 2 := by
  set n := x.numerator * tenTo (-k).toNat with hn
  set d := x.denominator * tenTo k.toNat with hd
  have hpos : 0 < d := Nat.mul_pos (Nat.pos_of_ne_zero x.denominator_ne_zero) (tenTo_pos _)
  have hgrid : (0 : ℚ) < 10 ^ k := by positivity
  have hratio : (n : ℚ) / d * 10 ^ k = x.value := by
    rw [← x.ratio, hn, hd, ← pow_toNat_div 10 k]
    push_cast [cast_tenTo]
    field_simp
  have hnear : |(⟨roundQuotient n d, k⟩ : Scientific).value - x.value| ≤ 10 ^ k / 2 := by
    have hround := abs_roundQuotient_sub_le (n := n) hpos
    rw [Scientific.value, ← hratio, ← sub_mul, abs_mul, abs_of_pos hgrid]
    linarith [mul_le_mul_of_nonneg_right hround hgrid.le]
  have hlist : x.neighbours k = if roundQuotient n d = n / d then [⟨n / d, k⟩, ⟨n / d + 1, k⟩]
      else [⟨n / d + 1, k⟩, ⟨n / d, k⟩] := rfl
  rcases roundQuotient_cases n d with ⟨hround, -⟩ | ⟨hround, -⟩
  · rw [hround] at hnear
    exact ⟨_, _, by rw [hlist, if_pos hround], hnear⟩
  · rw [hround] at hnear
    exact ⟨_, _, by rw [hlist, if_neg (by omega)], hnear⟩

/-- What is near enough to the double rounds to it. -/
theorem rounds_of_near {v : ℚ} (h : |v - x.value| * 4 < x.below * 2 ^ x.exponent) :
    x.Rounds v := by
  have hunit : (0 : ℚ) < 2 ^ x.exponent := by positivity
  have hquarters : |x.quarters v - 4 * x.mantissa| < x.below := by
    have hself : x.quarters v - 4 * x.mantissa = (v - x.value) * 4 / 2 ^ x.exponent := by
      rw [quarters, value]
      field_simp
    rw [hself, abs_div, abs_mul, abs_of_pos hunit, abs_of_pos (four_pos : (0 : ℚ) < 4),
      div_lt_iff₀ hunit]
    exact h
  obtain ⟨hlow, hhigh⟩ := abs_lt.mp hquarters
  have hbelow := x.below_le_two
  exact ⟨by linarith, by linarith, fun _ => ⟨by intro h; linarith, by intro h; linarith⟩⟩

/-- On the last grid the nearest point rounds to the double. -/
theorem rounds_of_last_grid {v : ℚ} (hx : x.mantissa ≠ 0) (hbits : x.mantissa < 2 ^ 53)
    (h : |v - x.value| ≤ 10 ^ (x.decade - 16) / 2) : x.Rounds v := by
  have hunit : (0 : ℚ) < 2 ^ x.exponent := by positivity
  have hspacing : (10 : ℚ) ^ (x.decade - 16) * 10 ^ 16 ≤ x.mantissa * 2 ^ x.exponent := by
    have hdecade := pow_decade_le hx
    rw [← zpow_natCast, ← zpow_add₀ (by norm_num)]
    simpa [value] using hdecade
  refine rounds_of_near ?_
  unfold below
  split
  · rename_i hboundary
    have hmantissa : (x.mantissa : ℚ) = 2 ^ 52 := by
      exact_mod_cast (atBoundary_iff.mp hboundary).1
    rw [hmantissa] at hspacing
    linarith
  · have hmantissa : (x.mantissa : ℚ) ≤ 2 ^ 53 := by exact_mod_cast hbits.le
    have hlast := mul_le_mul_of_nonneg_right hmantissa hunit.le
    linarith

/-- What the search finds is covered. -/
theorem covers_of_searchGrids {grids : Nat} {k : ℤ} (h : x.searchGrids grids k = some s) :
    x.covers s = true := by
  induction grids generalizing k with
  | zero => exact nomatch h
  | succ grids ih =>
    rw [searchGrids] at h
    split at h
    · rename_i hfound
      exact Option.some.inj h ▸ List.find?_some hfound
    · exact ih h

/-- The search finds something if it would on its last grid. -/
theorem isSome_searchGrids {grids : Nat} {k : ℤ}
    (h : ((x.neighbours (k - grids)).find? x.covers).isSome) :
    (x.searchGrids (grids + 1) k).isSome := by
  induction grids generalizing k with
  | zero =>
    obtain ⟨s, hs⟩ := Option.isSome_iff_exists.mp h
    rw [Nat.cast_zero, sub_zero] at hs
    rw [searchGrids, hs]
    rfl
  | succ grids ih =>
    rw [searchGrids]
    split
    · rfl
    · refine ih ?_
      rw [sub_sub, add_comm 1]
      exact_mod_cast h

/-- **The shortest decimal of a double rounds to it.** -/
theorem rounds_shortest (hx : x.mantissa ≠ 0) (hbits : x.mantissa < 2 ^ 53) :
    x.Rounds x.shortest.value := by
  obtain ⟨near, other, hlast, hnear⟩ := x.exists_neighbours (x.decade - 16)
  have hcovers : x.covers near = true :=
    (covers_iff hx).mpr (rounds_of_last_grid hx hbits hnear)
  have hsearch : (x.searchGrids 17 x.decade).isSome := by
    refine isSome_searchGrids ?_
    rw [show x.decade - (16 : ℕ) = x.decade - 16 from rfl, hlast, List.find?_cons_of_pos hcovers]
    rfl
  obtain ⟨s, hs⟩ := Option.isSome_iff_exists.mp hsearch
  rw [shortest, if_neg hx, hs, Option.getD_some, Scientific.value_stripped]
  exact (covers_iff hx).mp (covers_of_searchGrids hs)

/-- **A double is known by its shortest decimal.** -/
theorem eq_of_shortest_value (hx : x.Canonical) (hy : y.Canonical)
    (h : x.shortest.value = y.shortest.value) : x = y := by
  have hzero (x : Magnitude) (hx : x.Canonical) (hvalue : x.shortest.value = 0) : x = zero := by
    by_cases hmantissa : x.mantissa = 0
    · have hexponent : x.exponent = lowest := hx.full.resolve_left (by omega)
      cases x
      simp_all [zero]
    · exact absurd hvalue ((rounds_shortest hmantissa hx.mantissa_lt).pos hmantissa).ne'
  by_cases hvalue : x.shortest.value = 0
  · rw [hzero x hx hvalue, hzero y hy (h ▸ hvalue)]
  · have hne (x : Magnitude) (hvalue : x.shortest.value ≠ 0) : x.mantissa ≠ 0 := by
      intro hmantissa
      rw [shortest, if_pos hmantissa] at hvalue
      exact hvalue (by simp [Scientific.value])
    have hxv := rounds_shortest (hne x hvalue) hx.mantissa_lt
    rw [h] at hxv
    exact eq_of_rounds hx hy hxv (rounds_shortest (hne y (h ▸ hvalue)) hy.mantissa_lt)

end Magnitude

end FleetPlan.Decimal
