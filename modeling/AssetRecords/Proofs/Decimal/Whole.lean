import AssetRecords.Proofs.Decimal.Texts
/-!
# Whole — whole numbers in floating point

If a floating-point number is written as a whole number then it is the one of that number (`ofInt_eq_of_chars`).  Up to
where 32 bits hold every whole number, its number of 32 bits is written as it (`chars_ofInt_single`).
-/
namespace AssetRecords
namespace Decimal

open FloatFormat (single double)

theorem whole_eq (i : ℤ) : whole i = signed (decide (i < 0)) (Nat.toDigits 10 i.natAbs) := by
  rw [whole, signed]
  by_cases negative : i < 0
  · rw [if_pos negative, if_pos (decide_eq_true negative)]
  · rw [if_neg negative, if_neg (by simpa using negative)]

/-- Digits that are not too many for 64 bits are a whole number; a zero with a minus sign is none. -/
theorem exists_whole {negative : Bool} {n : ℕ} (natural : negative = false → n < 0x10000000000000000)
    (minus : negative = true → n ≠ 0 ∧ n ≤ 0x8000000000000000) :
    ∃ i, signed negative (Nat.toDigits 10 n) = whole i ∧ -0x8000000000000000 ≤ i ∧ i < 0x10000000000000000 := by
  cases negative with
  | false =>
    have small := natural rfl
    refine ⟨n, ?_, by omega, by omega⟩
    rw [whole_eq, decide_eq_false (by omega), Int.natAbs_natCast]
  | true =>
    have small := minus rfl
    refine ⟨-(n : ℤ), ?_, by omega, by omega⟩
    rw [whole_eq, decide_eq_true (by omega), Int.natAbs_neg, Int.natAbs_natCast]

theorem number_natural (n : ℕ) : number n 0 = n := by rw [number, zpow_zero, mul_one]

/-- A whole number in the range of a format has a finite nearest pattern. -/
theorem isNearest_nearest {F : FloatFormat} (h : F.IsStored) {n k : ℕ} (hk : k < F.infinity)
    (hn : (n : ℚ) ≤ F.value k) : F.IsNearest n (F.nearest n 1) ∧ F.nearest n 1 < F.infinity := by
  have quotient : (n / (1 : ℕ) : ℚ) = n := by rw [Nat.cast_one, div_one]
  have near := FloatFormat.isNearest_nearest h.bounds.1 Nat.one_pos hk (quotient.trans_le hn)
  rwa [quotient] at near

theorem isFinite_ofInt {F : FloatFormat} (h : F.IsStored) {i : ℤ} {k : ℕ} (hk : k < F.infinity)
    (hi : (i.natAbs : ℚ) ≤ F.value k) : (Floating.ofInt F i).isFinite = true := by
  have finite := (isNearest_nearest h hk hi).2
  rw [Floating.isFinite_iff, Floating.ofInt, Floating.magnitude_ofMagnitude _ (finite.trans F.infinity_lt_signBit)]
  exact finite

/-- A whole number is not rounded otherwise for being a decimal. -/
theorem nearestDecimal_natural (F : FloatFormat) (n : ℕ) :
    F.nearestDecimal n 0 = F.infinity ∨ F.nearestDecimal n 0 = F.nearest n 1 := by
  unfold FloatFormat.nearestDecimal
  simp only
  split
  · rename_i small
    have none : n = 0 := small.resolve_right (by omega)
    rw [none, FloatFormat.nearest, if_pos rfl]
    exact .inr rfl
  split
  · exact .inl rfl
  · simp [scaleByPowerOfTen]

/-- **A finite number that is written as a whole number is the one of that number.** -/
theorem ofInt_eq_of_chars {F : FloatFormat} (h : F.IsStored) {y : Floating F} (finite : y.isFinite = true) {i : ℤ}
    (text : y.chars = whole i) : Floating.ofInt F i = y := by
  obtain ⟨c, tail, digits, digit⟩ := exists_toDigits_eq_cons i.natAbs
  have read := Floating.floating?_chars h finite
  rw [text, whole_eq, digits, floating?_signed _ digit, ← digits, unsigned?_toDigits, Option.map_some,
    Floating.ofDecimal] at read
  have read := Option.some.inj read
  rcases nearestDecimal_natural F i.natAbs with infinite | same
  · rw [infinite] at read
    rw [← read, Floating.isFinite_iff, Floating.magnitude_ofMagnitude _ F.infinity_lt_signBit] at finite
    exact absurd finite (lt_irrefl _)
  · rwa [same] at read

/-!
## Whole numbers of a format
-/

/-- The least place of a format is behind all its fraction bits, with binades to spare up to infinity. -/
theorem exists_places {F : FloatFormat} (h : F.IsStored) : ∃ places : ℕ, F.minExponent = -(places : ℤ) ∧
    F.fractionBits ≤ places ∧ (places + 2) * F.leadingBit ≤ F.infinity := by
  rcases h with rfl | rfl
  · exact ⟨149, by decide, by decide, by decide⟩
  · exact ⟨1074, by decide, by decide, by decide⟩

/-- A whole number below the limit is a number of the format, and those around it are not further apart than one. -/
theorem exists_value {F : FloatFormat} (h : F.IsStored) {n : ℕ} (hn : 0 < n) (small : n < 2 * F.leadingBit) :
    ∃ m, 0 < m ∧ m < F.infinity ∧ F.value m = n ∧ F.step m ≤ 1 := by
  obtain ⟨places, least, wide, room⟩ := exists_places h
  have low := Nat.log2_self_le hn.ne'
  have high := Nat.lt_log2_self (n := n)
  have bits : n.log2 < F.fractionBits + 1 := (Nat.log2_lt hn.ne').2 (small.trans_eq (pow_succ' 2 F.fractionBits).symm)
  obtain ⟨j, hj⟩ : ∃ j, n.log2 + j = F.fractionBits := ⟨F.fractionBits - n.log2, by omega⟩
  have leading : F.leadingBit = 2 ^ n.log2 * 2 ^ j := by
    rw [← pow_add, hj]
    rfl
  have place : F.leadingBit ≤ n * 2 ^ j ∧ n * 2 ^ j < 2 * F.leadingBit := by
    rw [leading]
    refine ⟨Nat.mul_le_mul_right _ low, ?_⟩
    rw [← mul_assoc, ← pow_succ']
    exact Nat.mul_lt_mul_of_pos_right high (Nat.pow_pos (by decide))
  have exponent : F.minExponent + ((places - j : ℕ) : ℤ) = -(j : ℤ) := by omega
  refine ⟨(places - j) * F.leadingBit + n * 2 ^ j, ?_, ?_, ?_, ?_⟩
  · have := F.leadingBit_pos
    omega
  · have : (places - j) * F.leadingBit ≤ places * F.leadingBit := Nat.mul_le_mul_right _ (Nat.sub_le _ _)
    rw [Nat.add_mul] at room
    omega
  · rw [F.value_place place.2.le (.inr place.1), exponent, zpow_neg, zpow_natCast]
    push_cast
    field_simp
  · rw [FloatFormat.step, F.exponent_place place.2 (.inr place.1), exponent]
    exact zpow_le_one_of_nonpos₀ one_le_two (by omega)

/-- A whole number that is a number of the format is not rounded. -/
theorem nearest_of_value {F : FloatFormat} (h : F.IsStored) {m n : ℕ} (finite : m < F.infinity)
    (value : F.value m = n) : F.nearest n 1 = m := by
  rw [FloatFormat.nearest_eq_iff h.bounds.1 Nat.one_pos finite, Nat.cast_one, div_one, ← value]
  exact F.isNearest_value m

/-- The shortest decimal of a number that is whole, among numbers that are not further apart than one, is the number. -/
theorem positional_shortest {F : FloatFormat} (h : F.IsStored) {m n : ℕ} (hm : 0 < m) (finite : m < F.infinity)
    (value : F.value m = n) (fine : F.step m ≤ 1) :
    positional (shortest F m).1 (shortest F m).2 = Nat.toDigits 10 n := by
  obtain ⟨near, none⟩ := shortest_spec h hm finite
  have exact_ : F.IsNearest (number n 0) m := by
    rw [number_natural, ← value]
    exact F.isNearest_value m
  have natural : 0 ≤ (shortest F m).2 := not_lt.1 fun less => none 0 less n exact_
  have same : (shortest F m).1 * 10 ^ (shortest F m).2.toNat = n := by
    have scaled : number (shortest F m).1 (shortest F m).2 = ((shortest F m).1 * 10 ^ (shortest F m).2.toNat : ℕ) := by
      obtain ⟨p, hp⟩ := Int.eq_ofNat_of_zero_le natural
      rw [number, hp, Int.toNat_natCast, zpow_natCast]
      push_cast
      rfl
    rw [scaled] at near
    rw [number_natural] at exact_
    generalize (shortest F m).1 * 10 ^ (shortest F m).2.toNat = d at near
    have above := near.above.1
    obtain ⟨j, rfl⟩ := Nat.exists_eq_add_one_of_ne_zero hm.ne'
    have below := (near.below j rfl).1
    have := F.step_mono (Nat.le_add_right j 1)
    rw [FloatFormat.midpoint, value] at above
    rw [FloatFormat.value_succ] at value
    rw [FloatFormat.midpoint] at below
    have upper : (d : ℚ) < n + 1 := by linarith
    have lower : (n : ℚ) < d + 1 := by linarith
    have upper : d < n + 1 := by exact_mod_cast upper
    have lower : n < d + 1 := by exact_mod_cast lower
    omega
  have canonical : (shortest F m).1 = 0 → (shortest F m).2 = 0 := by
    intro zero
    rw [zero, number, Nat.cast_zero, zero_mul] at near
    have positive := F.value_strictMono hm
    rw [F.value_zero] at positive
    linarith [near.value_le hm]
  rcases positional_cases canonical with ⟨-, text⟩ | ⟨places, _, _, hp, power, -⟩
  · rw [text, same]
  · omega

/-- **Up to the limit a whole number of 32 bits is written as the number.** -/
theorem chars_ofInt_single {i : ℤ} (small : i.natAbs ≤ 2 * single.leadingBit) :
    (Floating.ofInt .single i).chars = whole i := by
  rcases Nat.lt_or_ge i.natAbs (2 * single.leadingBit) with below | limit
  · rcases Nat.eq_zero_or_pos i.natAbs with zero | positive
    · obtain rfl : i = 0 := Int.natAbs_eq_zero.1 zero
      decide
    · obtain ⟨m, hm, finite, value, fine⟩ := exists_value (.inl rfl) positive below
      have computed := nearest_of_value (.inl rfl) finite value
      have bounded := finite.trans single.infinity_lt_signBit
      have magnitude := Floating.magnitude_ofMagnitude (F := single) (decide (i < 0)) bounded
      rw [Floating.ofInt, computed, Floating.chars_of_isFinite, Floating.negative_ofMagnitude _ bounded,
        Floating.decimal, magnitude, if_neg hm.ne', positional_shortest (.inl rfl) hm finite value fine, whole_eq]
      rw [Floating.isFinite_iff, magnitude]
      exact finite
  · -- at the limit the numbers above are further apart
    have last : i.natAbs = 16777216 := le_antisymm small limit
    rcases Int.natAbs_eq i with positive | negative
    · rw [positive, last]
      decide +kernel
    · rw [negative, last]
      decide +kernel

end Decimal
end AssetRecords
