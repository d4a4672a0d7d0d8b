import AssetRecords.FloatingPoint.Format
import Mathlib.Algebra.Order.Field.Power
import Mathlib.Algebra.Order.Field.Rat
import Mathlib.Tactic.FieldSimp
import Mathlib.Tactic.Linarith
import Mathlib.Tactic.Positivity
import Mathlib.Tactic.Ring
/-!
# Rounding — the number nearest to a quotient

A pattern without sign stands for a number (`value`), and between the numbers of two neighbours is their midpoint.  The
quotients that round to a pattern are those between its midpoints, the midpoints themselves if the pattern is even
(`IsNearest`): for every quotient there is one such pattern, and it is the one that is computed (`nearest_eq_iff`).
-/
namespace AssetRecords

theorem zpow_eq_div (b : ℚ) (p : ℤ) : b ^ p = b ^ p.toNat / b ^ (-p).toNat := by
  obtain ⟨n, rfl | rfl⟩ := p.eq_nat_or_neg
  · simp
  · simp

theorem scaleByPowerOfTwo_div (num den : ℕ) (power : ℤ) :
    ((scaleByPowerOfTwo num den power).1 : ℚ) / (scaleByPowerOfTwo num den power).2 = num / den * 2 ^ power := by
  simp only [scaleByPowerOfTwo, Nat.pow_eq, Nat.cast_mul, Nat.cast_pow, Nat.cast_ofNat]
  rw [zpow_eq_div 2 power, mul_div_mul_comm]

theorem scaleByPowerOfTen_div (num den : ℕ) (power : ℤ) :
    ((scaleByPowerOfTen num den power).1 : ℚ) / (scaleByPowerOfTen num den power).2 = num / den * 10 ^ power := by
  simp only [scaleByPowerOfTen, Nat.pow_eq, Nat.cast_mul, Nat.cast_pow, Nat.cast_ofNat]
  rw [zpow_eq_div 10 power, mul_div_mul_comm]

theorem scaleByPowerOfTwo_pos {num den : ℕ} (hn : 0 < num) (hd : 0 < den) (power : ℤ) :
    0 < (scaleByPowerOfTwo num den power).1 ∧ 0 < (scaleByPowerOfTwo num den power).2 :=
  ⟨Nat.mul_pos hn (Nat.pow_pos (by decide)), Nat.mul_pos hd (Nat.pow_pos (by decide))⟩

theorem scaleByPowerOfTen_pos {num den : ℕ} (hn : 0 < num) (hd : 0 < den) (power : ℤ) :
    0 < (scaleByPowerOfTen num den power).1 ∧ 0 < (scaleByPowerOfTen num den power).2 :=
  ⟨Nat.mul_pos hn (Nat.pow_pos (by decide)), Nat.mul_pos hd (Nat.pow_pos (by decide))⟩

/-- The nearest whole number is at most a half away, and exactly a half only if it is even. -/
theorem roundHalfEven_spec (num : ℕ) {den : ℕ} (hd : 0 < den) :
    (2 * num ≤ (2 * roundHalfEven num den + 1) * den ∧
      (2 * num = (2 * roundHalfEven num den + 1) * den → roundHalfEven num den % 2 = 0)) ∧
    (2 * roundHalfEven num den * den ≤ 2 * num + den ∧
      (2 * roundHalfEven num den * den = 2 * num + den → roundHalfEven num den % 2 = 0)) := by
  have division := Nat.div_add_mod num den
  have remainder := Nat.mod_lt num hd
  unfold roundHalfEven
  generalize num / den = below at *
  generalize num % den = r at *
  subst division
  simp only
  split
  · refine ⟨⟨by nlinarith, fun h => by nlinarith⟩, ⟨by nlinarith, fun h => by nlinarith⟩⟩
  · split
    · refine ⟨⟨by nlinarith, fun h => by nlinarith⟩, ⟨by nlinarith, fun h => by nlinarith⟩⟩
    · have half : 2 * r = den := by omega
      rcases Nat.mod_two_eq_zero_or_one below with even | odd
      · rw [even]
        refine ⟨⟨by nlinarith, fun _ => by omega⟩, ⟨by nlinarith, fun h => by omega⟩⟩
      · rw [odd]
        refine ⟨⟨by nlinarith, fun h => by omega⟩, ⟨by nlinarith, fun _ => by omega⟩⟩

theorem roundHalfEven_bounds (num : ℕ) {den : ℕ} (hd : 0 < den) :
    ((num / den : ℚ) ≤ roundHalfEven num den + 1 / 2 ∧
      ((num / den : ℚ) = roundHalfEven num den + 1 / 2 → roundHalfEven num den % 2 = 0)) ∧
    ((roundHalfEven num den - 1 / 2 : ℚ) ≤ num / den ∧
      ((roundHalfEven num den - 1 / 2 : ℚ) = num / den → roundHalfEven num den % 2 = 0)) := by
  obtain ⟨⟨high, highEven⟩, low, lowEven⟩ := roundHalfEven_spec num hd
  generalize roundHalfEven num den = n at *
  have hd' : (0 : ℚ) < den := by exact_mod_cast hd
  refine ⟨⟨?_, fun tie => highEven ?_⟩, ?_, fun tie => lowEven ?_⟩
  · rw [div_le_iff₀ hd']
    have : (2 * num : ℚ) ≤ (2 * n + 1) * den := by exact_mod_cast high
    linarith
  · rw [div_eq_iff hd'.ne'] at tie
    have : (2 * num : ℚ) = (2 * n + 1) * den := by linarith
    exact_mod_cast this
  · rw [le_div_iff₀ hd']
    have : (2 * n * den : ℚ) ≤ 2 * num + den := by exact_mod_cast low
    linarith
  · rw [eq_div_iff hd'.ne'] at tie
    have : (2 * n * den : ℚ) = 2 * num + den := by linarith
    exact_mod_cast this

namespace FloatFormat

variable (F : FloatFormat)

theorem leadingBit_pos : 0 < F.leadingBit := Nat.pow_pos (by decide)

/-- A pattern of the `k`-th binade: a leading bit and a fraction behind it. -/
theorem significand_binade (k : ℕ) {r : ℕ} (hr : r < F.leadingBit) :
    F.significand ((k + 1) * F.leadingBit + r) = F.leadingBit + r := by
  have large : ¬ (k + 1) * F.leadingBit + r < F.leadingBit := by nlinarith
  rw [significand, if_neg large, Nat.mul_add_mod', Nat.mod_eq_of_lt hr]

theorem exponent_binade (k : ℕ) {r : ℕ} (hr : r < F.leadingBit) :
    F.exponent ((k + 1) * F.leadingBit + r) = F.minExponent + k := by
  have binade : ((k + 1) * F.leadingBit + r) / F.leadingBit = k + 1 := by
    rw [Nat.mul_comm, Nat.mul_add_div F.leadingBit_pos, Nat.div_eq_of_lt hr, Nat.add_zero]
  rw [exponent, binade, Nat.add_sub_cancel]

theorem significand_subnormal {m : ℕ} (hm : m < F.leadingBit) : F.significand m = m := if_pos hm

theorem exponent_subnormal {m : ℕ} (hm : m < F.leadingBit) : F.exponent m = F.minExponent := by
  rw [exponent, Nat.div_eq_of_lt hm]
  simp

/-- A pattern is subnormal or of some binade. -/
theorem pattern_cases (m : ℕ) : m < F.leadingBit ∨ ∃ k r, r < F.leadingBit ∧ m = (k + 1) * F.leadingBit + r := by
  by_cases small : m < F.leadingBit
  · exact .inl small
  · have positive : 0 < m / F.leadingBit := Nat.div_pos (by omega) F.leadingBit_pos
    refine .inr ⟨m / F.leadingBit - 1, m % F.leadingBit, Nat.mod_lt _ F.leadingBit_pos, ?_⟩
    rw [Nat.sub_add_cancel positive, Nat.mul_comm, Nat.div_add_mod]

theorem significand_lt (m : ℕ) : F.significand m < 2 * F.leadingBit := by
  have := F.leadingBit_pos
  rcases F.pattern_cases m with small | ⟨k, r, hr, rfl⟩
  · rw [F.significand_subnormal small]
    omega
  · rw [F.significand_binade k hr]
    omega

/-- The number that a pattern without sign stands for. -/
def value (m : ℕ) : ℚ := F.significand m * 2 ^ F.exponent m

/-- The distance of a pattern's number from the next one. -/
def step (m : ℕ) : ℚ := 2 ^ F.exponent m

theorem step_pos (m : ℕ) : 0 < F.step m := zpow_pos two_pos _

theorem value_succ (m : ℕ) : F.value (m + 1) = F.value m + F.step m := by
  rcases F.pattern_cases m with small | ⟨k, r, hr, rfl⟩
  · by_cases next : m + 1 < F.leadingBit
    · rw [value, value, step, F.significand_subnormal small, F.exponent_subnormal small, F.significand_subnormal next,
        F.exponent_subnormal next]
      push_cast
      ring
    · have edge : m + 1 = (0 + 1) * F.leadingBit + 0 := by omega
      rw [value, value, step, edge, F.significand_binade 0 F.leadingBit_pos, F.exponent_binade 0 F.leadingBit_pos,
        F.significand_subnormal small, F.exponent_subnormal small]
      have : (F.leadingBit : ℚ) = m + 1 := by exact_mod_cast (by omega : F.leadingBit = m + 1)
      rw [Nat.add_zero, this, Nat.cast_zero, add_zero]
      ring
  · by_cases next : r + 1 < F.leadingBit
    · rw [value, value, step, Nat.add_assoc, F.significand_binade k hr, F.exponent_binade k hr,
        F.significand_binade k next, F.exponent_binade k next]
      push_cast
      ring
    · have edge : (k + 1) * F.leadingBit + r + 1 = (k + 1 + 1) * F.leadingBit + 0 := by
        have : r + 1 = F.leadingBit := by omega
        rw [Nat.add_assoc, this]
        ring
      rw [value, value, step, edge, F.significand_binade (k + 1) F.leadingBit_pos,
        F.exponent_binade (k + 1) F.leadingBit_pos, F.significand_binade k hr, F.exponent_binade k hr]
      have : (F.leadingBit : ℚ) = r + 1 := by exact_mod_cast (by omega : F.leadingBit = r + 1)
      push_cast
      rw [this, ← add_assoc, zpow_add₀ two_ne_zero _ 1]
      ring

theorem exponent_mono {m n : ℕ} (h : m ≤ n) : F.exponent m ≤ F.exponent n := by
  have := Nat.div_le_div_right (c := F.leadingBit) h
  rw [exponent, exponent]
  omega

theorem step_mono {m n : ℕ} (h : m ≤ n) : F.step m ≤ F.step n :=
  zpow_le_zpow_right₀ one_le_two (F.exponent_mono h)

theorem value_zero : F.value 0 = 0 := by
  rw [value, F.significand_subnormal F.leadingBit_pos, Nat.cast_zero, zero_mul]

theorem value_strictMono : StrictMono F.value := strictMono_nat_of_lt_succ fun m => by
  rw [value_succ]
  exact lt_add_of_pos_right _ (F.step_pos m)

theorem value_nonneg (m : ℕ) : 0 ≤ F.value m := F.value_zero ▸ F.value_strictMono.monotone (Nat.zero_le m)

/-- The midpoint between a pattern's number and the next one. -/
def midpoint (m : ℕ) : ℚ := F.value m + F.step m / 2

theorem value_lt_midpoint (m : ℕ) : F.value m < F.midpoint m := by
  have := F.step_pos m
  rw [midpoint]
  linarith

theorem midpoint_lt_value_succ (m : ℕ) : F.midpoint m < F.value (m + 1) := by
  have := F.step_pos m
  rw [midpoint, value_succ]
  linarith

theorem midpoint_strictMono : StrictMono F.midpoint := strictMono_nat_of_lt_succ fun m =>
  (F.midpoint_lt_value_succ m).trans (F.value_lt_midpoint (m + 1))

/-- A quotient rounds to a pattern: it is between the pattern's midpoints, or one of them if the pattern is even. -/
structure IsNearest (q : ℚ) (m : ℕ) : Prop where
  below : ∀ k, m = k + 1 → F.midpoint k ≤ q ∧ (F.midpoint k = q → m % 2 = 0)
  above : q ≤ F.midpoint m ∧ (q = F.midpoint m → m % 2 = 0)

variable {F}

/-- A quotient rounds to one pattern only: of two neighbours one is odd. -/
theorem IsNearest.unique {q : ℚ} {m n : ℕ} (hm : F.IsNearest q m) (hn : F.IsNearest q n) : m = n := by
  have apart : ∀ {m n : ℕ}, F.IsNearest q m → F.IsNearest q n → ¬ m < n := by
    intro m n hm hn h
    obtain ⟨k, rfl⟩ := Nat.exists_eq_add_one_of_ne_zero (Nat.ne_of_gt (Nat.zero_lt_of_lt h))
    obtain ⟨low, lowEven⟩ := hn.below k rfl
    obtain ⟨high, highEven⟩ := hm.above
    have order : F.midpoint m ≤ F.midpoint k := F.midpoint_strictMono.monotone (Nat.le_of_lt_succ h)
    have touch : F.midpoint m = F.midpoint k := le_antisymm order (low.trans high)
    obtain rfl := F.midpoint_strictMono.injective touch
    have := lowEven (le_antisymm low high)
    have := highEven (le_antisymm high low)
    omega
  exact le_antisymm (not_lt.1 (apart hn hm)) (not_lt.1 (apart hm hn))

/-- The number of a pattern rounds to the pattern. -/
theorem isNearest_value (m : ℕ) : F.IsNearest (F.value m) m where
  below k hk := by
    subst hk
    have := F.midpoint_lt_value_succ k
    exact ⟨this.le, fun h => absurd h this.ne⟩
  above := by
    have := F.value_lt_midpoint m
    exact ⟨this.le, fun h => absurd h this.ne⟩

/-- What is not above the number of a pattern rounds to no greater pattern. -/
theorem IsNearest.le_of_le_value {q : ℚ} {m k : ℕ} (h : F.IsNearest q m) (hq : q ≤ F.value k) : m ≤ k := by
  by_contra past
  obtain ⟨j, rfl⟩ := Nat.exists_eq_add_of_lt (not_le.1 past)
  have low := (h.below (k + j) rfl).1
  have := (F.value_lt_midpoint (k + j)).trans_le low
  have := F.value_strictMono.monotone (Nat.le_add_right k j)
  linarith

/-- What is not below the number of a pattern rounds to no smaller pattern. -/
theorem IsNearest.le_of_value_le {q : ℚ} {m k : ℕ} (h : F.IsNearest q m) (hq : F.value k ≤ q) : k ≤ m := by
  by_contra short
  have := F.midpoint_lt_value_succ m
  have := F.value_strictMono.monotone (Nat.succ_le_of_lt (not_le.1 short))
  linarith [h.above.1]

/-- A pattern's number is at most twice what rounds to the pattern. -/
theorem IsNearest.value_le {q : ℚ} {m : ℕ} (h : F.IsNearest q m) (hm : 0 < m) : F.value m ≤ 2 * q := by
  obtain ⟨j, rfl⟩ := Nat.exists_eq_add_one_of_ne_zero hm.ne'
  have low := (h.below j rfl).1
  have := F.value_nonneg j
  rw [midpoint] at low
  rw [value_succ]
  linarith

/-- What rounds to one pattern is not further apart than the pattern's number from the next one. -/
theorem IsNearest.sub_le {q q' : ℚ} {m : ℕ} (h : F.IsNearest q m) (h' : F.IsNearest q' m) (hm : 0 < m) :
    q' - q ≤ F.step m := by
  obtain ⟨j, rfl⟩ := Nat.exists_eq_add_one_of_ne_zero hm.ne'
  have low := (h.below j rfl).1
  have high := h'.above.1
  have := F.step_mono (Nat.le_add_right j 1)
  rw [midpoint] at low high
  rw [value_succ] at high
  linarith

/-- Whatever rounds to a pattern is less than the next pattern's number. -/
theorem IsNearest.lt_value_succ {q : ℚ} {m : ℕ} (h : F.IsNearest q m) : q < F.value (m + 1) :=
  h.above.1.trans_lt (F.midpoint_lt_value_succ m)

/-- The distance to the next number is the least one, or a last place of the number. -/
theorem step_le (m : ℕ) : F.step m = 2 ^ F.minExponent ∨ F.leadingBit * F.step m ≤ F.value m := by
  rcases F.pattern_cases m with small | ⟨k, r, hr, rfl⟩
  · exact .inl (by rw [step, F.exponent_subnormal small])
  · refine .inr ?_
    rw [value, F.significand_binade k hr, ← step]
    exact mul_le_mul_of_nonneg_right (by exact_mod_cast Nat.le_add_right _ _) (F.step_pos _).le

theorem value_succ_le (m : ℕ) : F.value (m + 1) ≤ 2 * F.leadingBit * F.step m := by
  have bound : (F.significand m + 1 : ℚ) ≤ 2 * F.leadingBit := by exact_mod_cast F.significand_lt m
  rw [value_succ, value, ← step]
  have := mul_le_mul_of_nonneg_right bound (F.step_pos m).le
  linarith

theorem step_least (m : ℕ) : (2 : ℚ) ^ F.minExponent ≤ F.step m :=
  zpow_le_zpow_right₀ one_le_two (by rw [exponent]; omega)

/-!
## What is computed
-/

/-- The power of two of the leading bit of a quotient. -/
def leadingPower (num den : ℕ) : ℤ :=
  let guess : ℤ := (num.log2 : ℤ) - den.log2
  let atGuess := scaleByPowerOfTwo num den (-guess)
  if atGuess.2 ≤ atGuess.1 then guess else guess - 1

theorem leadingPower_spec {num den : ℕ} (hn : 0 < num) (hd : 0 < den) :
    (2 : ℚ) ^ leadingPower num den ≤ num / den ∧ (num / den : ℚ) < 2 ^ (leadingPower num den + 1) := by
  have n₁ : (2 : ℚ) ^ num.log2 ≤ num := by exact_mod_cast Nat.log2_self_le hn.ne'
  have n₂ : (num : ℚ) < 2 ^ (num.log2 + 1) := by exact_mod_cast Nat.lt_log2_self
  have d₁ : (2 : ℚ) ^ den.log2 ≤ den := by exact_mod_cast Nat.log2_self_le hd.ne'
  have d₂ : (den : ℚ) < 2 ^ (den.log2 + 1) := by exact_mod_cast Nat.lt_log2_self
  have hd' : (0 : ℚ) < den := by exact_mod_cast hd
  have two : (2 : ℚ) ≠ 0 := two_ne_zero
  -- the logarithms of numerator and denominator leave one bit open
  have low : (2 : ℚ) ^ ((num.log2 : ℤ) - den.log2 - 1) ≤ num / den := by
    rw [le_div_iff₀ hd', zpow_sub₀ two, zpow_sub₀ two, zpow_natCast, zpow_natCast, zpow_one, div_div]
    rw [div_mul_eq_mul_div, div_le_iff₀ (by positivity)]
    rw [pow_succ] at d₂
    have := pow_pos (two_pos (α := ℚ)) den.log2
    nlinarith
  have high : (num / den : ℚ) < 2 ^ ((num.log2 : ℤ) - den.log2 + 1) := by
    rw [div_lt_iff₀ hd', zpow_add₀ two, zpow_sub₀ two, zpow_natCast, zpow_natCast, zpow_one, div_mul_eq_mul_div,
      div_mul_eq_mul_div, lt_div_iff₀ (by positivity)]
    rw [pow_succ] at n₂
    have := pow_pos (two_pos (α := ℚ)) num.log2
    nlinarith
  have guess := scaleByPowerOfTwo_div num den (-((num.log2 : ℤ) - den.log2))
  have positive := (scaleByPowerOfTwo_pos hn hd (-((num.log2 : ℤ) - den.log2))).2
  have positive' : (0 : ℚ) < (scaleByPowerOfTwo num den (-((num.log2 : ℤ) - den.log2))).2 := by exact_mod_cast positive
  rw [zpow_neg, ← div_eq_mul_inv] at guess
  unfold leadingPower
  simp only
  split
  · rename_i reached
    refine ⟨?_, high⟩
    have : (1 : ℚ) ≤ num / den / 2 ^ ((num.log2 : ℤ) - den.log2) := by
      rw [← guess, one_le_div positive']
      exact_mod_cast reached
    rwa [one_le_div (zpow_pos two_pos _)] at this
  · rename_i short
    refine ⟨low, ?_⟩
    have : (num / den / 2 ^ ((num.log2 : ℤ) - den.log2) : ℚ) < 1 := by
      rw [← guess, div_lt_one positive']
      exact_mod_cast not_le.1 short
    rw [div_lt_one (zpow_pos two_pos _)] at this
    rwa [sub_add_cancel]

/-- The exponent of the last place that a quotient is rounded to. -/
def lastPlace (F : FloatFormat) (num den : ℕ) : ℤ := max F.minExponent (leadingPower num den - F.fractionBits)

/-- The pattern of a quotient as if there were patterns past infinity. -/
def unlimited (F : FloatFormat) (num den : ℕ) : ℕ :=
  let scaled := scaleByPowerOfTwo num den (-F.lastPlace num den)
  (F.lastPlace num den - F.minExponent).toNat * F.leadingBit + roundHalfEven scaled.1 scaled.2

theorem nearest_eq_min {num : ℕ} (hn : 0 < num) (den : ℕ) : F.nearest num den = min F.infinity (F.unlimited num den) :=
  if_neg hn.ne'

/-- So many last places make up the number of a pattern in the binade of the place or, at the end of it, in the next. -/
theorem value_place (F : FloatFormat) {k n : ℕ} (hn : n ≤ 2 * F.leadingBit) (h : k = 0 ∨ F.leadingBit ≤ n) :
    F.value (k * F.leadingBit + n) = n * 2 ^ (F.minExponent + k) := by
  rcases Nat.lt_or_ge n F.leadingBit with small | large
  · obtain rfl : k = 0 := h.resolve_right (Nat.not_le.2 small)
    rw [Nat.zero_mul, Nat.zero_add, value, F.significand_subnormal small, F.exponent_subnormal small, Nat.cast_zero,
      add_zero]
  · obtain ⟨r, rfl⟩ := Nat.exists_eq_add_of_le large
    rcases Nat.lt_or_ge r F.leadingBit with inside | edge
    · have pattern : k * F.leadingBit + (F.leadingBit + r) = (k + 1) * F.leadingBit + r := by ring
      rw [pattern, value, F.significand_binade k inside, F.exponent_binade k inside]
    · obtain rfl : r = F.leadingBit := by omega
      have pattern : k * F.leadingBit + (F.leadingBit + F.leadingBit) = (k + 1 + 1) * F.leadingBit + 0 := by ring
      rw [pattern, value, F.significand_binade (k + 1) F.leadingBit_pos, F.exponent_binade (k + 1) F.leadingBit_pos]
      push_cast
      rw [← add_assoc, zpow_add₀ two_ne_zero _ 1]
      ring

theorem exponent_place (F : FloatFormat) {k n : ℕ} (hn : n < 2 * F.leadingBit) (h : k = 0 ∨ F.leadingBit ≤ n) :
    F.exponent (k * F.leadingBit + n) = F.minExponent + k := by
  rcases Nat.lt_or_ge n F.leadingBit with small | large
  · obtain rfl : k = 0 := h.resolve_right (Nat.not_le.2 small)
    rw [Nat.zero_mul, Nat.zero_add, F.exponent_subnormal small, Nat.cast_zero, add_zero]
  · obtain ⟨r, rfl⟩ := Nat.exists_eq_add_of_le large
    have pattern : k * F.leadingBit + (F.leadingBit + r) = (k + 1) * F.leadingBit + r := by ring
    rw [pattern, F.exponent_binade k (by omega)]

theorem leadingBit_even {F : FloatFormat} (hF : F.fractionBits ≠ 0) : F.leadingBit % 2 = 0 := by
  obtain ⟨n, hn⟩ := Nat.exists_eq_add_one_of_ne_zero hF
  rw [leadingBit, hn, Nat.pow_eq, pow_succ, Nat.mul_mod_left]

theorem leadingBit_eq (F : FloatFormat) : (F.leadingBit : ℚ) = 2 ^ F.fractionBits := by
  rw [leadingBit, Nat.pow_eq]
  push_cast
  rfl

/-- A pattern made up of last places rounds what is nearest to that many of them. -/
theorem isNearest_place {F : FloatFormat} (hF : F.fractionBits ≠ 0) {k n : ℕ} {x : ℚ} (hx : x < 2 * F.leadingBit)
    (hk : k ≠ 0 → F.leadingBit ≤ x) (high : x ≤ n + 1 / 2 ∧ (x = n + 1 / 2 → n % 2 = 0))
    (low : n - 1 / 2 ≤ x ∧ (n - 1 / 2 = x → n % 2 = 0)) :
    F.IsNearest (x * 2 ^ (F.minExponent + k)) (k * F.leadingBit + n) := by
  have place : (0 : ℚ) < 2 ^ (F.minExponent + k) := zpow_pos two_pos _
  have hn : n ≤ 2 * F.leadingBit := by
    have : (n : ℚ) < 2 * F.leadingBit + 1 := by linarith
    exact Nat.lt_succ_iff.1 (by exact_mod_cast this)
  have normal : k = 0 ∨ F.leadingBit ≤ n := by
    rcases Nat.eq_zero_or_pos k with rfl | positive
    · exact .inl rfl
    · have : (F.leadingBit : ℚ) < n + 1 := by linarith [hk positive.ne']
      exact .inr (Nat.lt_succ_iff.1 (by exact_mod_cast this))
  have parity : (k * F.leadingBit + n) % 2 = n % 2 := by
    rw [Nat.add_mod, Nat.mul_mod, leadingBit_even hF]
    simp
  have value := F.value_place hn normal
  constructor
  · intro j hj
    by_cases edge : k ≠ 0 ∧ n = F.leadingBit
    · -- nothing of this binade is below its first number
      obtain ⟨positive, rfl⟩ := edge
      have least : F.value (j + 1) ≤ x * 2 ^ (F.minExponent + k) := by
        rw [← hj, value]
        exact mul_le_mul_of_nonneg_right (hk positive) place.le
      have := (F.midpoint_lt_value_succ j).trans_le least
      exact ⟨this.le, fun tie => absurd tie this.ne⟩
    · obtain ⟨n, rfl⟩ : ∃ n', n = n' + 1 := by
        refine Nat.exists_eq_add_one_of_ne_zero ?_
        rintro rfl
        have := F.leadingBit_pos
        rcases normal with rfl | large <;> omega
      obtain rfl : j = k * F.leadingBit + n := by omega
      have normal : k = 0 ∨ F.leadingBit ≤ n := by
        by_contra none
        omega
      have midpoint : F.midpoint (k * F.leadingBit + n) = ((n + 1 : ℕ) - 1 / 2) * 2 ^ (F.minExponent + k) := by
        rw [FloatFormat.midpoint, F.value_place (by omega) normal, step, F.exponent_place (by omega) normal]
        push_cast
        ring
      rw [midpoint, mul_le_mul_iff_left₀ place, mul_left_inj' place.ne', parity]
      exact low
  · rcases Nat.lt_or_ge n (2 * F.leadingBit) with inside | edge
    · have midpoint : F.midpoint (k * F.leadingBit + n) = (n + 1 / 2) * 2 ^ (F.minExponent + k) := by
        rw [FloatFormat.midpoint, value, step, F.exponent_place inside normal]
        ring
      rw [midpoint, mul_le_mul_iff_left₀ place, mul_left_inj' place.ne', parity]
      exact high
    · obtain rfl : n = 2 * F.leadingBit := by omega
      have below : x * 2 ^ (F.minExponent + k) < F.value (k * F.leadingBit + 2 * F.leadingBit) := by
        rw [value]
        push_cast
        exact mul_lt_mul_of_pos_right hx place
      have := below.trans (F.value_lt_midpoint _)
      exact ⟨this.le, fun tie => absurd tie this.ne⟩

/-- **A quotient rounds to the pattern that is computed for it.** -/
theorem isNearest_unlimited {F : FloatFormat} (hF : F.fractionBits ≠ 0) {num den : ℕ} (hn : 0 < num) (hd : 0 < den) :
    F.IsNearest (num / den) (F.unlimited num den) := by
  obtain ⟨low, high⟩ := leadingPower_spec hn hd
  have ratio := scaleByPowerOfTwo_div num den (-F.lastPlace num den)
  have rounded := roundHalfEven_bounds (scaleByPowerOfTwo num den (-F.lastPlace num den)).1
    (scaleByPowerOfTwo_pos hn hd (-F.lastPlace num den)).2
  rw [ratio] at rounded
  have place : F.minExponent + ((F.lastPlace num den - F.minExponent).toNat : ℤ) = F.lastPlace num den := by
    have : F.minExponent ≤ F.lastPlace num den := le_max_left _ _
    omega
  have back : (num / den : ℚ) = num / den * 2 ^ (-F.lastPlace num den) *
      2 ^ (F.minExponent + ((F.lastPlace num den - F.minExponent).toNat : ℤ)) := by
    rw [place, mul_assoc, ← zpow_add₀ two_ne_zero, neg_add_cancel, zpow_zero, mul_one]
  rw [back]
  refine isNearest_place hF ?_ (fun normal => ?_) rounded.1 rounded.2
  · have room : leadingPower num den + 1 ≤ F.fractionBits + 1 + F.lastPlace num den := by
      have : leadingPower num den - F.fractionBits ≤ F.lastPlace num den := le_max_right _ _
      omega
    have bound : (num / den : ℚ) < 2 ^ (F.fractionBits + 1 + F.lastPlace num den) :=
      high.trans_le (zpow_le_zpow_right₀ one_le_two room)
    rw [zpow_neg, ← div_eq_mul_inv, div_lt_iff₀ (zpow_pos two_pos _), leadingBit_eq]
    rw [zpow_add₀ two_ne_zero, zpow_add₀ two_ne_zero, zpow_natCast, zpow_one] at bound
    linarith
  · have normal : F.lastPlace num den = leadingPower num den - F.fractionBits := by
      rw [lastPlace] at normal ⊢
      omega
    rw [zpow_neg, ← div_eq_mul_inv, le_div_iff₀ (zpow_pos two_pos _), leadingBit_eq, ← zpow_natCast,
      ← zpow_add₀ two_ne_zero, normal, add_sub_cancel]
    exact low

/-- **A finite pattern is computed for the quotients that round to it, and for no others.** -/
theorem nearest_eq_iff {F : FloatFormat} (hF : F.fractionBits ≠ 0) {num den m : ℕ} (hd : 0 < den)
    (finite : m < F.infinity) : F.nearest num den = m ↔ F.IsNearest (num / den) m := by
  rcases Nat.eq_zero_or_pos num with rfl | hn
  · have zero : F.IsNearest ((0 : ℕ) / den) 0 := by
      rw [Nat.cast_zero, zero_div, ← F.value_zero]
      exact isNearest_value 0
    rw [nearest, if_pos rfl]
    exact ⟨fun h => h ▸ zero, zero.unique⟩
  · have computed := isNearest_unlimited hF hn hd
    rw [nearest_eq_min hn]
    constructor
    · intro h
      have : F.unlimited num den = m := by omega
      exact this ▸ computed
    · intro h
      rw [computed.unique h]
      exact Nat.min_eq_right finite.le

/-- Every quotient rounds to a pattern, if patterns past infinity are counted. -/
theorem exists_isNearest {F : FloatFormat} (hF : F.fractionBits ≠ 0) (num : ℕ) {den : ℕ} (hd : 0 < den) :
    ∃ m, F.IsNearest (num / den) m := by
  rcases Nat.eq_zero_or_pos num with rfl | hn
  · refine ⟨0, ?_⟩
    rw [Nat.cast_zero, zero_div, ← F.value_zero]
    exact isNearest_value 0
  · exact ⟨_, isNearest_unlimited hF hn hd⟩

/-- What is not above some number of the format rounds to a finite pattern, and that is computed. -/
theorem isNearest_nearest {F : FloatFormat} (hF : F.fractionBits ≠ 0) {num den k : ℕ} (hd : 0 < den)
    (hk : k < F.infinity) (h : (num / den : ℚ) ≤ F.value k) :
    F.IsNearest (num / den) (F.nearest num den) ∧ F.nearest num den < F.infinity := by
  obtain ⟨m, near⟩ := exists_isNearest hF num hd
  have finite : m < F.infinity := (near.le_of_le_value h).trans_lt hk
  rw [(nearest_eq_iff hF hd finite).2 near]
  exact ⟨near, finite⟩

/-- The number of a pattern is a quotient of whole numbers. -/
theorem scaled_spec (F : FloatFormat) (m : ℕ) : 0 < (scaleByPowerOfTwo (F.significand m) 1 (F.exponent m)).2 ∧
    ((scaleByPowerOfTwo (F.significand m) 1 (F.exponent m)).1 : ℚ) /
      (scaleByPowerOfTwo (F.significand m) 1 (F.exponent m)).2 = F.value m := by
  refine ⟨(scaleByPowerOfTwo_pos Nat.one_pos Nat.one_pos _).2, ?_⟩
  rw [scaleByPowerOfTwo_div, Nat.cast_one, div_one, value]

/-- **A quotient of numbers of a format is rounded once.** -/
theorem quotient_eq_iff {F : FloatFormat} (hF : F.fractionBits ≠ 0) {m n q : ℕ} (hn : 0 < F.significand n)
    (finite : q < F.infinity) : F.quotient m n = q ↔ F.IsNearest (F.value m / F.value n) q := by
  have positive : 0 < (scaleByPowerOfTwo (F.significand m) (F.significand n) (F.exponent m - F.exponent n)).2 :=
    Nat.mul_pos hn (Nat.pow_pos (by decide))
  have value : F.value m / F.value n = F.significand m / F.significand n * 2 ^ (F.exponent m - F.exponent n) := by
    rw [FloatFormat.value, FloatFormat.value, zpow_sub₀ two_ne_zero, mul_div_mul_comm]
  rw [quotient, value, ← scaleByPowerOfTwo_div]
  exact nearest_eq_iff hF positive finite

theorem exists_isNearest_value {G : FloatFormat} (hG : G.fractionBits ≠ 0) (F : FloatFormat) (m : ℕ) :
    ∃ g, G.IsNearest (F.value m) g := by
  obtain ⟨positive, quotient⟩ := F.scaled_spec m
  rw [← quotient]
  exact exists_isNearest hG _ positive

end FloatFormat

/-!
## Patterns with their sign
-/

theorem FloatFormat.infinity_lt_signBit (F : FloatFormat) : F.infinity < F.signBit := by
  have exponents : 0 < Nat.pow 2 F.exponentBits := Nat.pow_pos (by decide)
  have signBit : F.signBit = Nat.pow 2 F.exponentBits * F.leadingBit := by
    rw [signBit, width, Nat.add_sub_cancel, leadingBit, Nat.pow_eq, Nat.pow_eq, Nat.pow_eq, pow_add, mul_comm]
  rw [signBit, infinity]
  exact Nat.mul_lt_mul_of_pos_right (by omega) F.leadingBit_pos

namespace Floating

variable {F : FloatFormat}

theorem two_pow_width (F : FloatFormat) : 2 ^ F.width = 2 * F.signBit := by
  rw [FloatFormat.signBit, FloatFormat.width, Nat.add_sub_cancel, Nat.pow_eq, pow_succ, mul_comm]

theorem negative_eq (x : Floating F) : x.negative = decide (F.signBit ≤ x.bits.toNat) := BitVec.msb_eq_decide x.bits

theorem toNat_ofMagnitude (negative : Bool) {m : ℕ} (h : m < F.signBit) :
    (ofMagnitude F negative m).bits.toNat = if negative then F.signBit + m else m := by
  rw [ofMagnitude, BitVec.toNat_ofNat, two_pow_width, Nat.mod_eq_of_lt]
  split <;> omega

@[simp] theorem magnitude_ofMagnitude (negative : Bool) {m : ℕ} (h : m < F.signBit) :
    (ofMagnitude F negative m).magnitude = m := by
  rw [magnitude, toNat_ofMagnitude negative h]
  split
  · rw [Nat.add_mod_left, Nat.mod_eq_of_lt h]
  · exact Nat.mod_eq_of_lt h

@[simp] theorem negative_ofMagnitude (negative : Bool) {m : ℕ} (h : m < F.signBit) :
    (ofMagnitude F negative m).negative = negative := by
  rw [negative_eq, toNat_ofMagnitude negative h]
  cases negative with
  | true => exact decide_eq_true (Nat.le_add_right _ _)
  | false => exact decide_eq_false (Nat.not_le.2 h)

/-- A number is its sign and its pattern without sign. -/
theorem ofMagnitude_magnitude (x : Floating F) : ofMagnitude F x.negative x.magnitude = x := by
  obtain ⟨bits⟩ := x
  have bound : bits.toNat < 2 * F.signBit := two_pow_width F ▸ bits.isLt
  rw [ofMagnitude, negative_eq, magnitude]
  congr 1
  apply BitVec.eq_of_toNat_eq
  rw [BitVec.toNat_ofNat, two_pow_width]
  simp only
  by_cases sign : F.signBit ≤ bits.toNat
  · have rest : bits.toNat % F.signBit = bits.toNat - F.signBit := by
      rw [Nat.mod_eq_sub_mod sign, Nat.mod_eq_of_lt (by omega)]
    rw [if_pos (decide_eq_true sign), rest, Nat.add_sub_cancel' sign, Nat.mod_eq_of_lt bound]
  · rw [if_neg (by simpa using sign), Nat.mod_eq_of_lt (not_le.1 sign), Nat.mod_eq_of_lt bound]

theorem isFinite_iff {x : Floating F} : x.isFinite = true ↔ x.magnitude < F.infinity := decide_eq_true_iff

theorem isNaN_of_isFinite {x : Floating F} (finite : x.isFinite = true) : x.isNaN = false ∧ x.isInfinite = false := by
  have finite := isFinite_iff.1 finite
  exact ⟨decide_eq_false (by omega), decide_eq_false (by omega)⟩

/-- **A finite number is converted to the number of the other format that is nearest to it.** -/
theorem convert_eq {G : FloatFormat} (hG : G.fractionBits ≠ 0) {x : Floating F} (finite : x.isFinite = true) {m : ℕ}
    (finite' : m < G.infinity) (near : G.IsNearest (F.value x.magnitude) m) :
    x.convert G = ofMagnitude G x.negative m := by
  obtain ⟨number, limited⟩ := isNaN_of_isFinite finite
  obtain ⟨positive, quotient⟩ := F.scaled_spec x.magnitude
  rw [← quotient] at near
  have nearest := (FloatFormat.nearest_eq_iff hG positive finite').2 near
  simp only [convert, number, limited, nearest, Bool.false_eq_true, if_false]

end Floating

end AssetRecords
