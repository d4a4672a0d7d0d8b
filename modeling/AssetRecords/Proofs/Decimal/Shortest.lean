import AssetRecords.Decimal.Shortest
import AssetRecords.Proofs.FloatingPoint.Rounding
import Mathlib.Tactic.NormNum
/-!
# Shortest — the decimal of a number and the number of a decimal

The decimals that are sought are those that round to a pattern (`holds_iff`).  The one that is found is among them and
no power above its own has any (`shortest_spec`), so that the shortest decimal of a number reads back to it, and a
decimal with digits fine enough is the shortest one of whatever it reads as (`shortest_eq_of_isNearest`).
-/
namespace AssetRecords

namespace FloatFormat

variable {F : FloatFormat}

theorem significand_parity (hF : F.fractionBits ≠ 0) (m : ℕ) : F.significand m % 2 = m % 2 := by
  have even := leadingBit_even hF
  rcases F.pattern_cases m with small | ⟨k, r, hr, rfl⟩
  · rw [F.significand_subnormal small]
  · rw [F.significand_binade k hr, Nat.add_mod, even, Nat.add_mod ((k + 1) * F.leadingBit), Nat.mul_mod, even]
    simp

theorem significand_pos {m : ℕ} (hm : 0 < m) : 0 < F.significand m := by
  have := F.leadingBit_pos
  rcases F.pattern_cases m with small | ⟨k, r, hr, rfl⟩
  · rwa [F.significand_subnormal small]
  · rw [F.significand_binade k hr]
    omega

/-- Below the first number of a binade the numbers are twice as dense. -/
theorem exponent_pred (j : ℕ) : F.exponent j =
    if F.significand (j + 1) = F.leadingBit ∧ 2 * F.leadingBit ≤ j + 1 then F.exponent (j + 1) - 1
    else F.exponent (j + 1) := by
  have positive := F.leadingBit_pos
  rcases F.pattern_cases j with small | ⟨k, r, hr, rfl⟩
  · rw [if_neg (by omega), F.exponent_subnormal small]
    by_cases next : j + 1 < F.leadingBit
    · rw [F.exponent_subnormal next]
    · have edge : j + 1 = (0 + 1) * F.leadingBit + 0 := by omega
      rw [edge, F.exponent_binade 0 positive, Nat.cast_zero, add_zero]
  · by_cases next : r + 1 < F.leadingBit
    · rw [Nat.add_assoc, F.significand_binade k next, F.exponent_binade k hr, F.exponent_binade k next,
        if_neg (by omega)]
    · have edge : (k + 1) * F.leadingBit + r + 1 = (k + 1 + 1) * F.leadingBit + 0 := by
        have : r + 1 = F.leadingBit := by omega
        rw [Nat.add_assoc, this]
        ring
      have normal : 2 * F.leadingBit ≤ (k + 1 + 1) * F.leadingBit + 0 := by nlinarith
      rw [edge, F.significand_binade (k + 1) positive, F.exponent_binade k hr, F.exponent_binade (k + 1) positive,
        if_pos ⟨Nat.add_zero _, normal⟩]
      push_cast
      ring

/-- What is between a quotient that rounds to a pattern and the pattern's number rounds to it as well. -/
theorem IsNearest.of_le_value {m : ℕ} {q q' : ℚ} (h : F.IsNearest q m) (hq : q ≤ q') (hv : q' ≤ F.value m) :
    F.IsNearest q' m where
  below k hk := by
    obtain ⟨low, even⟩ := h.below k hk
    exact ⟨low.trans hq, fun tie => even (le_antisymm low (hq.trans tie.ge))⟩
  above := by
    have := hv.trans_lt (F.value_lt_midpoint m)
    exact ⟨this.le, fun tie => absurd tie this.ne⟩

theorem IsNearest.of_value_le {m : ℕ} {q q' : ℚ} (h : F.IsNearest q m) (hq : q' ≤ q) (hv : F.value m ≤ q') :
    F.IsNearest q' m where
  below k hk := by
    subst hk
    have := (F.midpoint_lt_value_succ k).trans_le hv
    exact ⟨this.le, fun tie => absurd tie this.ne⟩
  above := by
    obtain ⟨high, even⟩ := h.above
    exact ⟨hq.trans high, fun tie => even (le_antisymm high (tie.ge.trans hq))⟩

end FloatFormat

namespace Decimal

open FloatFormat (IsNearest)

/-- The number `digits · 10 ^ power`. -/
def number (digits : ℕ) (power : ℤ) : ℚ := digits * 10 ^ power

theorem number_succ (d : ℕ) (power : ℤ) : number (d + 1) power = number d power + 10 ^ power := by
  rw [number, number]
  push_cast
  ring

theorem number_mul_pow (d n : ℕ) (power : ℤ) : number (d * 10 ^ n) power = number d (power + n) := by
  rw [number, number, zpow_add₀ (by norm_num), zpow_natCast]
  push_cast
  ring

namespace RoundingInterval

theorem quarter_pos (i : RoundingInterval) (power : ℤ) : 0 < (i.quarter power).1 ∧ 0 < (i.quarter power).2 := by
  obtain ⟨n, d⟩ := scaleByPowerOfTwo_pos Nat.one_pos Nat.one_pos i.exponent
  exact scaleByPowerOfTen_pos n d (-power)

theorem quarter_div (i : RoundingInterval) (power : ℤ) :
    ((i.quarter power).1 : ℚ) / (i.quarter power).2 = 2 ^ i.exponent / 10 ^ power := by
  rw [quarter, scaleByPowerOfTen_div, scaleByPowerOfTwo_div, zpow_neg]
  simp [div_eq_mul_inv]

/-- Quarters of a last place and multiples of a power of ten in a common measure. -/
theorem exists_measure (i : RoundingInterval) (power : ℤ) : ∃ c : ℚ, 0 < c ∧
    (∀ n : ℕ, (n * (i.quarter power).1 : ℚ) = n * 2 ^ i.exponent * c) ∧
      ∀ d : ℕ, (d * (i.quarter power).2 : ℚ) = number d power * c := by
  have ten : (0 : ℚ) < 10 ^ power := zpow_pos (by norm_num) _
  have positive : (0 : ℚ) < (i.quarter power).2 := by exact_mod_cast (i.quarter_pos power).2
  have ratio := i.quarter_div power
  rw [div_eq_div_iff positive.ne' ten.ne'] at ratio
  refine ⟨(i.quarter power).2 / 10 ^ power, div_pos positive ten, fun n => ?_, fun d => ?_⟩
  · rw [mul_div_assoc', eq_div_iff ten.ne', mul_assoc, ratio]
    ring
  · rw [number]
    field_simp

theorem le_point_iff (i : RoundingInterval) (n d : ℕ) (power : ℤ) :
    n * (i.quarter power).1 ≤ d * (i.quarter power).2 ↔ (n * 2 ^ i.exponent : ℚ) ≤ number d power := by
  obtain ⟨c, hc, quarters, tens⟩ := i.exists_measure power
  rw [← Nat.cast_le (α := ℚ), Nat.cast_mul, Nat.cast_mul, quarters, tens, mul_le_mul_iff_left₀ hc]

theorem point_le_iff (i : RoundingInterval) (n d : ℕ) (power : ℤ) :
    d * (i.quarter power).2 ≤ n * (i.quarter power).1 ↔ number d power ≤ (n * 2 ^ i.exponent : ℚ) := by
  obtain ⟨c, hc, quarters, tens⟩ := i.exists_measure power
  rw [← Nat.cast_le (α := ℚ), Nat.cast_mul, Nat.cast_mul, quarters, tens, mul_le_mul_iff_left₀ hc]

variable {F : FloatFormat} {m : ℕ}

/-- The upper end of a pattern's interval is its midpoint. -/
theorem high_eq (F : FloatFormat) (m : ℕ) : ((of F m).high : ℚ) * 2 ^ (of F m).exponent = F.midpoint m := by
  simp only [of, FloatFormat.midpoint, FloatFormat.value, FloatFormat.step]
  push_cast
  rw [zpow_sub₀ two_ne_zero]
  ring

theorem center_eq (F : FloatFormat) (m : ℕ) : ((of F m).center : ℚ) * 2 ^ (of F m).exponent = F.value m := by
  simp only [of, FloatFormat.value]
  push_cast
  rw [zpow_sub₀ two_ne_zero]
  ring

/-- The lower end is the midpoint before it. -/
theorem low_eq (F : FloatFormat) (j : ℕ) :
    ((of F (j + 1)).low : ℚ) * 2 ^ (of F (j + 1)).exponent = F.midpoint j := by
  have positive := FloatFormat.significand_pos (F := F) (Nat.add_one_pos j)
  have midpoint : F.midpoint j = F.value (j + 1) - F.step j / 2 := by
    rw [FloatFormat.midpoint, F.value_succ]
    ring
  rw [midpoint, FloatFormat.step, FloatFormat.exponent_pred]
  simp only [of, FloatFormat.value]
  split
  · rw [Nat.cast_sub (by omega)]
    push_cast
    rw [zpow_sub₀ two_ne_zero, zpow_sub₀ two_ne_zero]
    ring
  · rw [Nat.cast_sub (by omega)]
    push_cast
    rw [zpow_sub₀ two_ne_zero]
    ring

/-- The decimals of a pattern's interval are those that round to the pattern. -/
theorem holds_iff (hF : F.fractionBits ≠ 0) (hm : 0 < m) (digits : ℕ) (power : ℤ) :
    (of F m).holds digits power = true ↔ F.IsNearest (number digits power) m := by
  obtain ⟨j, rfl⟩ := Nat.exists_eq_add_one_of_ne_zero hm.ne'
  have closed : (of F (j + 1)).closed = decide ((j + 1) % 2 = 0) := by
    rw [← FloatFormat.significand_parity hF]
    rfl
  have low := (of F (j + 1)).le_point_iff (of F (j + 1)).low digits power
  have high := (of F (j + 1)).point_le_iff (of F (j + 1)).high digits power
  have low' := (of F (j + 1)).point_le_iff (of F (j + 1)).low digits power
  have high' := (of F (j + 1)).le_point_iff (of F (j + 1)).high digits power
  rw [low_eq] at low low'
  rw [high_eq] at high high'
  have nearest : F.IsNearest (number digits power) (j + 1) ↔
      (F.midpoint j ≤ number digits power ∧ (F.midpoint j = number digits power → (j + 1) % 2 = 0)) ∧
        number digits power ≤ F.midpoint (j + 1) ∧ (number digits power = F.midpoint (j + 1) → (j + 1) % 2 = 0) :=
    ⟨fun h => ⟨h.below j rfl, h.above⟩, fun h => ⟨fun k hk => Nat.succ.inj hk ▸ h.1, h.2⟩⟩
  rw [nearest, holds]
  simp only [closed]
  by_cases even : (j + 1) % 2 = 0
  · rw [if_pos (decide_eq_true even), Bool.and_eq_true, decide_eq_true_eq, decide_eq_true_eq, low, high]
    simp only [even, implies_true, and_true]
  · rw [if_neg (by simpa using even), Bool.and_eq_true, decide_eq_true_eq, decide_eq_true_eq, ← not_le, low', ← not_le,
      high', not_le, not_le]
    simp only [even, imp_false]
    exact and_congr lt_iff_le_and_ne lt_iff_le_and_ne

theorem floorAt_spec (F : FloatFormat) (m : ℕ) (power : ℤ) :
    number ((of F m).floorAt power) power ≤ F.value m ∧ F.value m < number ((of F m).floorAt power + 1) power := by
  have positive := ((of F m).quarter_pos power).2
  have below := (of F m).point_le_iff (of F m).center ((of F m).floorAt power) power
  have above := (of F m).point_le_iff (of F m).center ((of F m).floorAt power + 1) power
  rw [center_eq] at below above
  refine ⟨below.1 (Nat.div_mul_le_self _ _), ?_⟩
  rw [← not_le, ← above, not_le]
  exact Nat.lt_mul_of_div_lt (Nat.lt_succ_self _) positive

/-- The multiple of a power of ten that is found rounds to the pattern. -/
theorem isNearest_of_onGrid? (hF : F.fractionBits ≠ 0) (hm : 0 < m) {power : ℤ} {digits : ℕ}
    (h : (of F m).onGrid? power = some digits) : F.IsNearest (number digits power) m := by
  rw [← holds_iff hF hm]
  unfold onGrid? at h
  simp only at h
  split at h
  · rename_i below above
    cases h
    split
    · exact above
    · exact below
  · cases h
    assumption
  · cases h
    assumption
  · cases h

theorem number_mono {d d' : ℕ} (h : d ≤ d') (power : ℤ) : number d power ≤ number d' power :=
  mul_le_mul_of_nonneg_right (by exact_mod_cast h) (zpow_nonneg (by norm_num) _)

/-- If no multiple of a power of ten is found then none rounds to the pattern. -/
theorem not_isNearest_of_onGrid? (hF : F.fractionBits ≠ 0) (hm : 0 < m) {power : ℤ}
    (h : (of F m).onGrid? power = none) (digits : ℕ) : ¬ F.IsNearest (number digits power) m := by
  intro nearest
  obtain ⟨below, above⟩ := floorAt_spec F m power
  -- a neighbour of the number is between it and the multiple
  have neighbour : (of F m).holds ((of F m).floorAt power) power = true ∨
      (of F m).holds ((of F m).floorAt power + 1) power = true := by
    rw [holds_iff hF hm, holds_iff hF hm]
    rcases Nat.lt_or_ge ((of F m).floorAt power) digits with high | low
    · exact .inr (nearest.of_value_le (number_mono high power) above.le)
    · exact .inl (nearest.of_le_value (number_mono low power) below)
  unfold onGrid? at h
  simp only at h
  split at h
  · cases h
  · cases h
  · cases h
  · simp_all

/-- What is found is on the grid of its power, and no power above it has a grid in the interval. -/
theorem search_spec (hF : F.fractionBits ≠ 0) (hm : 0 < m) {lowest : ℤ}
    (exact_ : F.IsNearest (number ((of F m).floorAt lowest) lowest) m) (steps : ℕ) :
    F.IsNearest (number ((of F m).search lowest steps).1 ((of F m).search lowest steps).2) m ∧
      ∀ power, ((of F m).search lowest steps).2 < power → power ≤ lowest + steps → ∀ digits,
        ¬ F.IsNearest (number digits power) m := by
  induction steps with
  | zero =>
    refine ⟨exact_, fun power low high => ?_⟩
    have : ((of F m).search lowest 0).2 = lowest := rfl
    rw [Nat.cast_zero] at high
    omega
  | succ steps ih =>
    rw [search]
    cases found : (of F m).onGrid? (lowest + (steps + 1 : ℕ)) with
    | some digits =>
      exact ⟨isNearest_of_onGrid? hF hm found, fun power low high => absurd (low.trans_le high) (lt_irrefl _)⟩
    | none =>
      refine ⟨ih.1, fun power low high => ?_⟩
      rcases high.lt_or_eq with high | rfl
      · exact ih.2 power low (by push_cast at high; omega)
      · exact not_isNearest_of_onGrid? hF hm found

/-- At the lowest power the number itself is on the grid. -/
theorem number_floorAt_exactPower (F : FloatFormat) (m : ℕ) :
    number ((of F m).floorAt (of F m).exactPower) (of F m).exactPower = F.value m := by
  have exponent : (of F m).exactPower = min (F.exponent m) 0 := by
    show min (F.exponent m - 2 + 2) 0 = _
    rw [sub_add_cancel]
  obtain ⟨digits, value⟩ : ∃ digits : ℕ, F.value m = number digits (of F m).exactPower := by
    rw [exponent, FloatFormat.value]
    obtain ⟨n, positive | negative⟩ := (F.exponent m).eq_nat_or_neg
    · refine ⟨F.significand m * 2 ^ n, ?_⟩
      rw [positive, min_eq_right (Int.natCast_nonneg n), number, zpow_natCast, zpow_zero, mul_one]
      push_cast
      rfl
    · refine ⟨F.significand m * 5 ^ n, ?_⟩
      have ten : (10 : ℚ) ^ n = 5 ^ n * 2 ^ n := by rw [← mul_pow]; norm_num
      rw [negative, min_eq_left (by omega), number, zpow_neg, zpow_neg, zpow_natCast, zpow_natCast, ten]
      push_cast
      field_simp
  obtain ⟨below, above⟩ := floorAt_spec F m (of F m).exactPower
  have grid : (0 : ℚ) < 10 ^ (of F m).exactPower := zpow_pos (by norm_num) _
  rw [value, number, number, mul_le_mul_iff_left₀ grid, Nat.cast_le] at below
  rw [value, number, number, mul_lt_mul_iff_left₀ grid, Nat.cast_lt] at above
  have same : (of F m).floorAt (of F m).exactPower = digits := by omega
  rw [same, value]

/-!
Powers of two against powers of ten, as far as the two formats need them.
-/

theorem two_pow_le_ten_pow : ∀ n < 1100, 2 ^ n ≤ 10 ^ (n * 30103 / 100000 + 2) := by decide +kernel

theorem ten_pow_le_two_pow : ∀ n < 1100, 10 ^ ((n * 30103 + 99999) / 100000 - 2) ≤ 2 ^ n := by decide +kernel

theorem two_zpow_le_ten_zpow {b : ℤ} (low : -1100 < b) (high : b < 1100) :
    (2 : ℚ) ^ b ≤ 10 ^ (Int.fdiv (b * 30103) 100000 + 2) := by
  rw [Int.fdiv_eq_ediv_of_nonneg _ (by decide)]
  obtain ⟨n, rfl | rfl⟩ := b.eq_nat_or_neg
  · have bound := two_pow_le_ten_pow n (by omega)
    have power : ((n : ℤ) * 30103 / 100000 + 2) = ((n * 30103 / 100000 + 2 : ℕ) : ℤ) := by omega
    rw [power, zpow_natCast, zpow_natCast]
    exact_mod_cast bound
  · have bound := ten_pow_le_two_pow n (by omega)
    have power : -(((n * 30103 + 99999) / 100000 - 2 : ℕ) : ℤ) ≤ -(n : ℤ) * 30103 / 100000 + 2 := by omega
    refine le_trans ?_ (zpow_le_zpow_right₀ (by norm_num) power)
    rw [zpow_neg, zpow_neg, zpow_natCast, zpow_natCast]
    exact inv_anti₀ (by positivity) (by exact_mod_cast bound)

end RoundingInterval

end Decimal

namespace FloatFormat

/-- One of the two formats that numbers are stored in. -/
def IsStored (F : FloatFormat) : Prop := F = single ∨ F = double

theorem IsStored.bounds {F : FloatFormat} (h : F.IsStored) : F.fractionBits ≠ 0 ∧ F.fractionBits ≤ 52 ∧
    -1074 ≤ F.minExponent ∧ F.exponent F.infinity ≤ 972 ∧ 0 < F.infinity := by
  rcases h with rfl | rfl <;> decide

/-- The reach of a format covers its numbers. -/
theorem IsStored.reach {F : FloatFormat} (h : F.IsStored) : -(F.decimalReach : ℤ) ≤ F.minExponent - 1 ∧
    F.fractionBits + 1 + F.exponent F.infinity ≤ F.decimalReach := by
  rcases h with rfl | rfl <;> decide

end FloatFormat

namespace Decimal

open RoundingInterval

section Stored

variable {F : FloatFormat} {m : ℕ}

/-- Ten to the ceiling power is above every decimal that rounds to the pattern. -/
theorem midpoint_lt_ceilingPower (h : F.IsStored) (finite : m < F.infinity) :
    F.midpoint m < 10 ^ (RoundingInterval.of F m).ceilingPower := by
  obtain ⟨-, bits, least, greatest, -⟩ := h.bounds
  have low : F.minExponent ≤ F.exponent m := by
    rw [FloatFormat.exponent]
    omega
  have high := F.exponent_mono finite.le
  have significand := F.significand_lt m
  have high₁ : (RoundingInterval.of F m).high < 2 ^ 56 := by
    have leading : F.leadingBit ≤ 2 ^ 52 := Nat.pow_le_pow_right (by decide) bits
    show 4 * F.significand m + 2 < 2 ^ 56
    omega
  have digits : (RoundingInterval.of F m).high.log2 < 56 := by
    rw [Nat.log2_lt (by show 4 * F.significand m + 2 ≠ 0; omega)]
    exact high₁
  have exponent : (RoundingInterval.of F m).exponent = F.exponent m - 2 := rfl
  have bound := two_zpow_le_ten_zpow
    (b := (RoundingInterval.of F m).high.log2 + (RoundingInterval.of F m).exponent + 1) (by omega) (by omega)
  refine lt_of_lt_of_le ?_ bound
  have below : ((RoundingInterval.of F m).high : ℚ) < 2 ^ ((RoundingInterval.of F m).high.log2 + 1) := by
    exact_mod_cast Nat.lt_log2_self
  rw [← high_eq, add_right_comm, zpow_add₀ two_ne_zero]
  refine mul_lt_mul_of_pos_right ?_ (zpow_pos two_pos _)
  rw [← Nat.cast_one, ← Nat.cast_add, zpow_natCast]
  exact_mod_cast below

/-- **The shortest decimal rounds to the pattern, and no multiple of a greater power of ten does.** -/
theorem shortest_spec (h : F.IsStored) (hm : 0 < m) (finite : m < F.infinity) :
    F.IsNearest (number (shortest F m).1 (shortest F m).2) m ∧
      ∀ power, (shortest F m).2 < power → ∀ digits, ¬ F.IsNearest (number digits power) m := by
  have hF := h.bounds.1
  have exact_ : F.IsNearest (number ((RoundingInterval.of F m).floorAt (RoundingInterval.of F m).exactPower)
      (RoundingInterval.of F m).exactPower) m := by
    rw [number_floorAt_exactPower]
    exact FloatFormat.isNearest_value m
  obtain ⟨nearest, none⟩ := search_spec hF hm exact_
    ((RoundingInterval.of F m).ceilingPower - (RoundingInterval.of F m).exactPower).toNat
  refine ⟨nearest, fun power greater digits hit => ?_⟩
  by_cases sought : power ≤ (RoundingInterval.of F m).exactPower +
      (((RoundingInterval.of F m).ceilingPower - (RoundingInterval.of F m).exactPower).toNat : ℤ)
  · exact none power greater sought digits hit
  · -- a power that is not tried is too great for any multiple of it but zero, which is too small
    have past : (RoundingInterval.of F m).ceilingPower ≤ power := by omega
    rcases Nat.eq_zero_or_pos digits with rfl | positive
    · obtain ⟨j, rfl⟩ := Nat.exists_eq_add_one_of_ne_zero hm.ne'
      have low := (hit.below j rfl).1
      rw [number, Nat.cast_zero, zero_mul] at low
      exact absurd ((F.value_nonneg j).trans_lt (F.value_lt_midpoint j)) (not_lt.2 low)
    · have high := hit.above.1
      have one : (10 : ℚ) ^ power ≤ number digits power := by
        have : (1 : ℚ) ≤ digits := by exact_mod_cast positive
        exact le_mul_of_one_le_left (zpow_nonneg (by norm_num) _) this
      have := midpoint_lt_ceilingPower h finite
      have := zpow_le_zpow_right₀ (by norm_num : (1 : ℚ) ≤ 10) past
      linarith

/-- Multiples of a power of ten are equal or that power apart. -/
theorem number_eq_or_apart (d d' : ℕ) {p p' : ℤ} (h : p ≤ p') : number d p = number d' p' ∨
    10 ^ p ≤ number d p - number d' p' ∨ 10 ^ p ≤ number d' p' - number d p := by
  obtain ⟨n, rfl⟩ := Int.le.dest h
  have grid : (0 : ℚ) < 10 ^ p := zpow_pos (by norm_num) _
  have apart : ∀ {a b : ℕ}, a < b → 10 ^ p ≤ number b p - number a p := by
    intro a b less
    have : (a + 1 : ℚ) ≤ b := by exact_mod_cast less
    rw [number, number, ← sub_mul]
    exact le_mul_of_one_le_left grid.le (by linarith)
  rw [← number_mul_pow]
  rcases Nat.lt_trichotomy d (d' * 10 ^ n) with less | same | more
  · exact .inr (.inr (apart less))
  · exact .inl (by rw [same])
  · exact .inr (.inl (apart more))

/-- **Digits that are finer than the numbers are found again**: the shortest decimal of what they round to has no
others, if they do not end in a zero. -/
theorem shortest_eq_of_isNearest (h : F.IsStored) (hm : 0 < m) (finite : m < F.infinity) {d : ℕ} {p : ℤ}
    (near : F.IsNearest (number d p) m) (fine : F.step m < 10 ^ p)
    (last : ∀ p', p < p' → ∀ d', number d' p' ≠ number d p) : shortest F m = (d, p) := by
  obtain ⟨near', none⟩ := shortest_spec h hm finite
  have reached : p ≤ (shortest F m).2 := not_lt.1 fun less => none p less d near
  have same : number d p = number (shortest F m).1 (shortest F m).2 := by
    rcases number_eq_or_apart d (shortest F m).1 reached with same | apart | apart
    · exact same
    · exact absurd fine (not_lt.2 (apart.trans (near'.sub_le near hm)))
    · exact absurd fine (not_lt.2 (apart.trans (near.sub_le near' hm)))
  rcases reached.lt_or_eq with beyond | power
  · exact absurd same.symm (last _ beyond _)
  · rw [number, number, ← power, mul_left_inj' (zpow_pos (by norm_num) _).ne', Nat.cast_inj] at same
    rw [same]
    exact Prod.ext rfl power.symm

/-- A power of ten without a multiple among the decimals of a pattern is coarse. -/
theorem step_le_of_none {power : ℤ} (none : ∀ digits, ¬ F.IsNearest (number digits power) m) :
    F.step m ≤ 2 * 10 ^ power := by
  by_contra wide
  obtain ⟨below, above⟩ := floorAt_spec F m power
  have next := number_succ ((RoundingInterval.of F m).floorAt power) power
  have high : number ((RoundingInterval.of F m).floorAt power + 1) power < F.midpoint m := by
    rw [FloatFormat.midpoint]
    linarith
  refine none ((RoundingInterval.of F m).floorAt power + 1) ⟨fun k hk => ?_, high.le, fun tie => absurd tie high.ne⟩
  subst hk
  have low := (F.midpoint_lt_value_succ k).trans above
  exact ⟨low.le, fun tie => absurd tie low.ne⟩

end Stored

section Widening

open FloatFormat (single double)

variable {m f : ℕ}

theorem value_infinity_single : single.value single.infinity = 2 ^ (128 : ℤ) := by
  have place : single.value (254 * single.leadingBit + single.leadingBit) =
      single.leadingBit * 2 ^ (single.minExponent + (254 : ℕ)) := single.value_place (by omega) (.inr le_rfl)
  have exponent : single.minExponent + (254 : ℕ) = 105 := by decide
  rw [exponent, FloatFormat.leadingBit_eq] at place
  exact place.trans (by norm_num [single])

theorem exists_value_double : ∃ k < double.infinity, double.value k = 2 ^ (128 : ℤ) := by
  have place : double.value (1150 * double.leadingBit + double.leadingBit) =
      double.leadingBit * 2 ^ (double.minExponent + (1150 : ℕ)) := double.value_place (by omega) (.inr le_rfl)
  have exponent : double.minExponent + (1150 : ℕ) = 76 := by decide
  rw [exponent, FloatFormat.leadingBit_eq] at place
  exact ⟨_, by decide, place.trans (by norm_num [double])⟩

theorem value_one (F : FloatFormat) : F.value 1 = 2 ^ F.minExponent := by
  have := F.value_place (k := 0) (n := 1) (by have := F.leadingBit_pos; omega) (.inl rfl)
  simpa using this

/-- The least double-precision numbers are far below the least single-precision numbers. -/
theorem minExponent_double : (2 : ℚ) ^ 27 * 2 ^ double.minExponent ≤ 2 ^ single.minExponent := by
  rw [← zpow_natCast, ← zpow_add₀ two_ne_zero]
  exact zpow_le_zpow_right₀ one_le_two (by decide)

/-- What a single-precision number is written as is finite and not zero in double precision either. -/
theorem range_of_single (hm : 0 < m) (finite : m < single.infinity) {q : ℚ} (h : single.IsNearest q m)
    (h' : double.IsNearest q f) : 0 < f ∧ f < double.infinity := by
  constructor
  · have least := single.value_strictMono.monotone (Nat.succ_le_of_lt hm)
    have small : double.value 1 ≤ single.value 1 / 2 := by
      have positive : (0 : ℚ) < 2 ^ double.minExponent := zpow_pos two_pos _
      rw [value_one, value_one]
      linarith [minExponent_double]
    exact h'.le_of_value_le (by linarith [h.value_le hm])
  · obtain ⟨k, hk, value⟩ := exists_value_double
    have greatest := single.value_strictMono.monotone (Nat.succ_le_of_lt finite)
    rw [value_infinity_single, ← value] at greatest
    exact (h'.le_of_le_value (h.lt_value_succ.le.trans greatest)).trans_lt hk

/-- **The shortest decimal of a single-precision number is that of the double-precision number it is read as.** -/
theorem shortest_double (hm : 0 < m) (finite : m < single.infinity)
    (h : double.IsNearest (number (shortest single m).1 (shortest single m).2) f) :
    shortest double f = shortest single m := by
  obtain ⟨near, none⟩ := shortest_spec (.inl rfl) hm finite
  obtain ⟨positive, finite'⟩ := range_of_single hm finite near h
  have coarse := step_le_of_none (none _ (lt_add_one _))
  -- a double has so many bits more that its last place is far behind the last digit
  have fine : 2 ^ 27 * double.step f ≤ single.step m := by
    rcases double.step_le f with subnormal | normal
    · rw [subnormal]
      exact minExponent_double.trans (single.step_least m)
    · have bits : (double.leadingBit : ℚ) = 2 ^ 52 ∧ (single.leadingBit : ℚ) = 2 ^ 23 :=
        ⟨double.leadingBit_eq, single.leadingBit_eq⟩
      have high := near.lt_value_succ.trans_le (single.value_succ_le m)
      have low := h.value_le positive
      rw [bits.2] at high
      rw [bits.1] at normal
      linarith
  refine shortest_eq_of_isNearest (d := (shortest single m).1) (p := (shortest single m).2) (.inr rfl) positive finite'
    h ?_ fun p less d same => none p less d (same ▸ near)
  have grid : (0 : ℚ) < 10 ^ (shortest single m).2 := zpow_pos (by norm_num) _
  rw [zpow_add₀ (by norm_num), zpow_one] at coarse
  linarith

end Widening

end Decimal
end AssetRecords
