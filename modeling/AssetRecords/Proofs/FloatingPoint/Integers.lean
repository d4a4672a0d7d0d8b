import AssetRecords.Proofs.Decimal.DoubleRounding
/-!
# Integers — the whole numbers among floating-point numbers

A floating-point number denotes a whole number if its value is one (`toInt?_eq_some_iff`).  A whole number is rounded to
a number that denotes it if the format has such a number at all (`toInt?_ofInt_iff`), and a format has one for every
whole number that is not longer than a significand (`exists_toInt?`).
-/
namespace AssetRecords
namespace Floating

open FloatFormat (single double)

variable {F : FloatFormat} {x : Floating F} {i : ℤ}

/-- The number that a finite pattern stands for. -/
def value (x : Floating F) : ℚ := if x.negative then -F.value x.magnitude else F.value x.magnitude

theorem abs_value (x : Floating F) : |x.value| = F.value x.magnitude := by
  rw [value]
  split
  · rw [abs_neg, abs_of_nonneg (F.value_nonneg _)]
  · exact abs_of_nonneg (F.value_nonneg _)

theorem toInt?_eq_some_iff : x.toInt? = some i ↔ x.isFinite = true ∧ x.value = i := by
  obtain ⟨positive, quotient⟩ := F.scaled_spec x.magnitude
  rw [toInt?, value, ← quotient]
  by_cases finite : x.isFinite = true
  · simp only [finite, if_true, true_and]
    generalize scaleByPowerOfTwo (F.significand x.magnitude) 1 (F.exponent x.magnitude) = scaled at positive
    obtain ⟨num, den⟩ := scaled
    simp only at positive ⊢
    have nonzero : (den : ℚ) ≠ 0 := by exact_mod_cast positive.ne'
    by_cases divides : num % den = 0
    · obtain ⟨n, rfl⟩ := Nat.dvd_of_mod_eq_zero divides
      have number : ((den * n : ℕ) : ℚ) / den = (n : ℤ) := by
        push_cast
        field_simp
      rw [if_pos divides, Nat.mul_div_cancel_left _ positive, number, Option.some.injEq]
      by_cases sign : x.negative = true
      · rw [if_pos sign, if_pos sign, ← Int.cast_neg, Int.cast_inj]
      · rw [if_neg sign, if_neg sign, Int.cast_inj]
    · rw [if_neg divides]
      refine ⟨nofun, fun whole => absurd ?_ divides⟩
      -- a quotient that is a whole number leaves no remainder
      have multiple : ∃ j : ℤ, (num : ℚ) = j * den := by
        by_cases sign : x.negative = true
        · rw [if_pos sign, neg_eq_iff_eq_neg, div_eq_iff nonzero] at whole
          exact ⟨-i, by rw [whole, Int.cast_neg]⟩
        · rw [if_neg sign, div_eq_iff nonzero] at whole
          exact ⟨i, whole⟩
      obtain ⟨j, hj⟩ := multiple
      have hj : (num : ℤ) = j * den := by exact_mod_cast hj
      exact Nat.mod_eq_zero_of_dvd (Int.natCast_dvd_natCast.1 ⟨j, by rw [hj, mul_comm]⟩)
  · rw [if_neg finite]
    exact ⟨nofun, fun h => absurd h.1 finite⟩

theorem value_ofMagnitude (negative : Bool) {m : ℕ} (h : m < F.signBit) :
    (ofMagnitude F negative m).value = if negative then -F.value m else F.value m := by
  rw [value, magnitude_ofMagnitude _ h, negative_ofMagnitude _ h]

/-- A pattern for the size of a whole number is a number for it. -/
theorem toInt?_ofMagnitude {m : ℕ} (finite : m < F.infinity) (size : F.value m = i.natAbs) :
    (ofMagnitude F (i < 0) m).toInt? = some i := by
  have bounded := finite.trans F.infinity_lt_signBit
  rw [toInt?_eq_some_iff, isFinite_iff, magnitude_ofMagnitude _ bounded, value_ofMagnitude _ bounded, size]
  refine ⟨finite, ?_⟩
  by_cases negative : i < 0
  · rw [if_pos (decide_eq_true negative), Nat.cast_natAbs, abs_of_neg negative]
    simp
  · rw [if_neg (by simpa using negative), Nat.cast_natAbs, abs_of_nonneg (not_lt.1 negative)]

theorem ofInt_eq_of_value {m : ℕ} (h : F.fractionBits ≠ 0) (finite : m < F.infinity) (size : F.value m = i.natAbs) :
    ofInt F i = ofMagnitude F (i < 0) m := by
  have near : F.IsNearest ((i.natAbs : ℕ) / (1 : ℕ)) m := by
    rw [Nat.cast_one, div_one, ← size]
    exact F.isNearest_value m
  rw [ofInt, (FloatFormat.nearest_eq_iff h Nat.one_pos finite).2 near]

/-- **A whole number is rounded to a number that denotes it, if there is one.** -/
theorem toInt?_ofInt_iff (h : F.fractionBits ≠ 0) :
    (ofInt F i).toInt? = some i ↔ ∃ y : Floating F, y.toInt? = some i := by
  refine ⟨fun denoted => ⟨_, denoted⟩, fun ⟨y, hy⟩ => ?_⟩
  obtain ⟨finite, number⟩ := toInt?_eq_some_iff.1 hy
  have finite := isFinite_iff.1 finite
  have size : F.value y.magnitude = i.natAbs := by rw [Nat.cast_natAbs, Int.cast_abs, ← number, abs_value]
  rw [ofInt_eq_of_value h finite size]
  exact toInt?_ofMagnitude finite size

/-- Where the numbers of a format end, or before that, is a number that is past every significand. -/
theorem exists_large (h : F.IsStored) : ∃ k ≤ F.infinity, F.value k = 2 ^ (128 : ℤ) := by
  rcases h with rfl | rfl
  · exact ⟨_, le_rfl, Decimal.value_infinity_single⟩
  · obtain ⟨k, hk, value⟩ := Decimal.exists_value_double
    exact ⟨k, hk.le, value⟩

theorem lt_infinity_of_value_lt (h : F.IsStored) {m : ℕ} (less : F.value m < 2 ^ (128 : ℤ)) : m < F.infinity := by
  obtain ⟨k, hk, large⟩ := exists_large h
  rw [← large, F.value_strictMono.lt_iff_lt] at less
  exact less.trans_le hk

/-- Every whole number that is not longer than a significand is a number of the format. -/
theorem exists_toInt? (h : F.IsStored) (small : i.natAbs ≤ 2 * F.leadingBit) : ∃ y : Floating F, y.toInt? = some i := by
  have unit : F.minExponent + ((-F.minExponent).toNat : ℤ) = 0 ∧ 2 * F.leadingBit < 2 ^ 128 := by
    rcases h with rfl | rfl <;> decide
  obtain ⟨m, size⟩ := F.exists_value_eq (-F.minExponent).toNat small
  rw [unit.1, zpow_zero, mul_one] at size
  refine ⟨_, toInt?_ofMagnitude (lt_infinity_of_value_lt h ?_) size⟩
  rw [size]
  exact_mod_cast small.trans_lt unit.2

/-- A number of 32 bits denotes as a double what it denotes. -/
theorem toInt?_convert_double {x : Single} (h : x.toInt? = some i) : (x.convert .double).toInt? = some i := by
  obtain ⟨finite, number⟩ := toInt?_eq_some_iff.1 h
  have place : double.minExponent + ((single.exponent x.magnitude - double.minExponent).toNat : ℤ) =
      single.exponent x.magnitude := by
    have := single.minExponent_le x.magnitude
    have : single.minExponent = -149 ∧ double.minExponent = -1074 := by decide
    omega
  have few : single.significand x.magnitude ≤ 2 * double.leadingBit := by
    have := single.significand_lt x.magnitude
    have : single.leadingBit = 2 ^ 23 ∧ double.leadingBit = 2 ^ 52 := ⟨rfl, rfl⟩
    omega
  obtain ⟨m, same⟩ := double.exists_value_eq _ few
  rw [place] at same
  change double.value m = single.value x.magnitude at same
  have finite' : m < double.infinity := by
    refine lt_infinity_of_value_lt (.inr rfl) ?_
    rw [same, ← Decimal.value_infinity_single]
    exact single.value_strictMono (isFinite_iff.1 finite)
  have bounded := finite'.trans double.infinity_lt_signBit
  have near : double.IsNearest (single.value x.magnitude) m := same ▸ double.isNearest_value m
  rw [convert_eq (by decide) finite finite' near, toInt?_eq_some_iff, isFinite_iff, magnitude_ofMagnitude _ bounded,
    value_ofMagnitude _ bounded, same]
  exact ⟨finite', number⟩

end Floating
end AssetRecords
