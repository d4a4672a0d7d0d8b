import AssetRecords.Proofs.Decimal.Fractions
import AssetRecords.Proofs.Decimal.Shortest
/-!
# DoubleRounding — decimals of 32-bit numbers, rounded twice

The shortest decimal of a single-precision number is rounded to a double first, and the double to single precision.  That
is lost only if the double is a midpoint between two numbers of single precision and the decimal is not, and then the
decimal is as close to the midpoint as a double can tell, in digits as coarse as the number's last place.  There is one
number with such a decimal, `0x15ae43fd` (`isNearest_double`).
-/
namespace AssetRecords

namespace Decimal

namespace RoundingInterval

variable {F : FloatFormat} {m : ℕ}

/-- Of the two neighbours the upper one is told to be the nearer one if it is, or if both are equally near. -/
theorem nearerAbove_iff (F : FloatFormat) (m : ℕ) (power : ℤ) : (of F m).nearerAbove power = true ↔
    number ((of F m).floorAt power + 1) power - F.value m ≤ F.value m - number ((of F m).floorAt power) power := by
  obtain ⟨c, hc, quarters, tens⟩ := (of F m).exists_measure power
  have center := quarters (of F m).center
  rw [center_eq] at center
  have whole := tens ((of F m).floorAt power)
  have unit := tens 1
  rw [Nat.cast_one, one_mul, number, Nat.cast_one, one_mul] at unit
  have division : (of F m).floorAt power * ((of F m).quarter power).2 +
      (of F m).center * ((of F m).quarter power).1 % ((of F m).quarter power).2 =
        (of F m).center * ((of F m).quarter power).1 := Nat.div_add_mod' _ _
  rw [nearerAbove, decide_eq_true_iff]
  generalize (of F m).center * ((of F m).quarter power).1 % ((of F m).quarter power).2 = rest at division ⊢
  rw [← Nat.cast_inj (R := ℚ), Nat.cast_add, Nat.cast_mul, Nat.cast_mul, center, whole] at division
  rw [← Nat.cast_le (α := ℚ), unit, number_succ, Nat.cast_mul, Nat.cast_ofNat]
  have scaled : (10 ^ power * c ≤ 2 * rest ↔ 10 ^ power * c ≤
      2 * (F.value m - number ((of F m).floorAt power) power) * c) := by
    have : (rest : ℚ) = (F.value m - number ((of F m).floorAt power) power) * c := by linarith
    rw [this, mul_assoc]
  rw [scaled, mul_le_mul_iff_left₀ hc]
  constructor <;> intro h <;> linarith

/-- The multiple that is found is the nearest one of those that round to the pattern. -/
theorem abs_sub_onGrid?_le (hF : F.fractionBits ≠ 0) (hm : 0 < m) {power : ℤ} {digits : ℕ}
    (h : (of F m).onGrid? power = some digits) {d : ℕ} (near : F.IsNearest (number d power) m) :
    |F.value m - number digits power| ≤ |F.value m - number d power| := by
  obtain ⟨low, high⟩ := floorAt_spec F m power
  -- the multiple is on one side, and the neighbour on that side rounds to the pattern as well
  have side : ((of F m).holds ((of F m).floorAt power) power = true ∧
        F.value m - number ((of F m).floorAt power) power ≤ |F.value m - number d power|) ∨
      ((of F m).holds ((of F m).floorAt power + 1) power = true ∧
        number ((of F m).floorAt power + 1) power - F.value m ≤ |F.value m - number d power|) := by
    rw [holds_iff hF hm, holds_iff hF hm]
    rcases Nat.lt_or_ge ((of F m).floorAt power) d with above | below
    · have further := number_mono (Nat.succ_le_of_lt above) power
      refine .inr ⟨near.of_value_le further high.le, ?_⟩
      rw [abs_sub_comm]
      exact (sub_le_sub_right further _).trans (le_abs_self _)
    · have further := number_mono below power
      exact .inl ⟨near.of_le_value further low, (sub_le_sub_left further _).trans (le_abs_self _)⟩
  have nearer := nearerAbove_iff F m power
  unfold onGrid? at h
  simp only at h
  have left : |F.value m - number ((of F m).floorAt power) power| =
      F.value m - number ((of F m).floorAt power) power := abs_of_nonneg (sub_nonneg.2 low)
  have right : |F.value m - number ((of F m).floorAt power + 1) power| =
      number ((of F m).floorAt power + 1) power - F.value m := by
    rw [abs_sub_comm]
    exact abs_of_nonneg (sub_nonneg.2 high.le)
  split at h
  · cases h
    split
    · rename_i above
      rw [right]
      have := nearer.1 above
      rcases side with ⟨-, side⟩ | ⟨-, side⟩ <;> linarith
    · rename_i below
      rw [left]
      have := not_le.1 (mt nearer.2 below)
      rcases side with ⟨-, side⟩ | ⟨-, side⟩ <;> linarith
  · rename_i none
    cases h
    rw [left]
    exact (side.resolve_right fun above => absurd (none.symm.trans above.1) Bool.false_ne_true).2
  · rename_i none _
    cases h
    rw [right]
    exact (side.resolve_left fun below => absurd (none.symm.trans below.1) Bool.false_ne_true).2
  · cases h

theorem abs_sub_search_le (hF : F.fractionBits ≠ 0) (hm : 0 < m) {lowest : ℤ}
    (exact_ : number ((of F m).floorAt lowest) lowest = F.value m) {d : ℕ} : ∀ steps : ℕ,
    F.IsNearest (number d ((of F m).search lowest steps).2) m →
      |F.value m - number ((of F m).search lowest steps).1 ((of F m).search lowest steps).2| ≤
        |F.value m - number d ((of F m).search lowest steps).2|
  | 0, _ => by
    rw [search, exact_, sub_self, abs_zero]
    exact abs_nonneg _
  | steps + 1, near => by
    rw [search] at near ⊢
    cases found : (of F m).onGrid? (lowest + (steps + 1 : ℕ)) with
    | some digits =>
      rw [found] at near
      exact abs_sub_onGrid?_le hF hm found near
    | none =>
      rw [found] at near
      exact abs_sub_search_le hF hm exact_ steps near

end RoundingInterval

/-- **Of the decimals with its power of ten that round to a number the shortest one is the nearest.** -/
theorem abs_sub_shortest_le {F : FloatFormat} (hF : F.fractionBits ≠ 0) {m : ℕ} (hm : 0 < m) {d : ℕ}
    (near : F.IsNearest (number d (shortest F m).2) m) :
    |F.value m - number (shortest F m).1 (shortest F m).2| ≤ |F.value m - number d (shortest F m).2| :=
  RoundingInterval.abs_sub_search_le hF hm (RoundingInterval.number_floorAt_exactPower F m) _ near

end Decimal

/-!
## Midpoints
-/

namespace FloatFormat

variable {F : FloatFormat}

/-- So many of some power of two, if they are not too many for a significand, are the number of a pattern. -/
theorem exists_value_eq (F : FloatFormat) : ∀ (k : ℕ) {n : ℕ}, n ≤ 2 * F.leadingBit →
    ∃ g, F.value g = n * 2 ^ (F.minExponent + k)
  | 0, n, hn => ⟨_, F.value_place hn (.inl rfl)⟩
  | k + 1, n, hn => by
    by_cases normal : F.leadingBit ≤ n
    · exact ⟨_, F.value_place hn (.inr normal)⟩
    · obtain ⟨g, value⟩ := exists_value_eq F k (n := 2 * n) (by omega)
      refine ⟨g, value.trans ?_⟩
      push_cast
      rw [← add_assoc, zpow_add₀ two_ne_zero _ 1, zpow_one]
      ring

theorem midpoint_eq (F : FloatFormat) (m : ℕ) :
    F.midpoint m = (2 * F.significand m + 1 : ℕ) * 2 ^ (F.exponent m - 1) := by
  rw [midpoint, value, step, zpow_sub_one₀ two_ne_zero]
  push_cast
  ring

theorem minExponent_le (F : FloatFormat) (m : ℕ) : F.minExponent ≤ F.exponent m := by
  rw [exponent]
  omega

/-- Halfway between two numbers of single precision there is a double. -/
theorem exists_midpoint_double (m : ℕ) : ∃ g, double.value g = single.midpoint m := by
  have place : double.minExponent + ((single.exponent m - 1 - double.minExponent).toNat : ℤ) = single.exponent m - 1 := by
    have := single.minExponent_le m
    have : single.minExponent = -149 ∧ double.minExponent = -1074 := by decide
    omega
  have few : 2 * single.significand m + 1 ≤ 2 * double.leadingBit := by
    have := single.significand_lt m
    have : single.leadingBit = 2 ^ 23 ∧ double.leadingBit = 2 ^ 52 := ⟨rfl, rfl⟩
    omega
  rw [midpoint_eq, ← place]
  exact double.exists_value_eq _ few

theorem IsNearest.of_between {q : ℚ} {k : ℕ} (below : F.midpoint k < q) (above : q < F.midpoint (k + 1)) :
    F.IsNearest q (k + 1) where
  below j hj := by
    obtain rfl := Nat.succ.inj hj
    exact ⟨below.le, fun tie => absurd tie below.ne⟩
  above := ⟨above.le, fun tie => absurd tie above.ne⟩

/-- What rounds to a number is at most half of the number's last place away from it. -/
theorem IsNearest.abs_sub_le {q : ℚ} {m : ℕ} (h : F.IsNearest q m) (hm : 0 < m) : |q - F.value m| ≤ F.step m / 2 := by
  obtain ⟨j, rfl⟩ := Nat.exists_eq_add_one_of_ne_zero hm.ne'
  have low := (h.below j rfl).1
  have high := h.above.1
  have finer := F.step_mono (Nat.le_add_right j 1)
  rw [midpoint] at low high
  rw [abs_le]
  rw [value_succ] at high ⊢
  constructor <;> linarith

/-- **Rounded to a double on its way, a quotient is lost only if it is rounded to a midpoint.**  Then its pattern is
odd, for an even one has its midpoints. -/
theorem tie_of_not_isNearest {q : ℚ} {m f : ℕ} (near : single.IsNearest q m) (near' : double.IsNearest q f)
    (lost : ¬ single.IsNearest (double.value f) m) :
    m % 2 = 1 ∧ (double.value f = single.midpoint m ∨ ∃ k, m = k + 1 ∧ double.value f = single.midpoint k) := by
  have above : double.value f ≤ single.midpoint m := by
    obtain ⟨g, value⟩ := exists_midpoint_double m
    rw [← value]
    exact double.value_strictMono.monotone (near'.le_of_le_value (near.above.1.trans value.ge))
  have below : ∀ k, m = k + 1 → single.midpoint k ≤ double.value f := by
    intro k hk
    obtain ⟨g, value⟩ := exists_midpoint_double k
    rw [← value]
    exact double.value_strictMono.monotone (near'.le_of_value_le (value.le.trans (near.below k hk).1))
  have odd : m % 2 = 1 := by
    by_contra even
    exact lost ⟨fun k hk => ⟨below k hk, fun _ => by omega⟩, above, fun _ => by omega⟩
  refine ⟨odd, ?_⟩
  by_contra strict
  rw [not_or] at strict
  exact lost ⟨fun k hk => ⟨below k hk, fun tie => absurd ⟨k, hk, tie.symm⟩ strict.2⟩, above,
    fun tie => absurd tie strict.1⟩

/-- The midpoint below an odd pattern is half a step away from its number, as the one above is. -/
theorem midpoint_pred (hF : F.fractionBits ≠ 0) {k : ℕ} (odd : (k + 1) % 2 = 1) :
    F.midpoint k = F.value (k + 1) - F.step (k + 1) / 2 := by
  have parity := significand_parity hF (k + 1)
  have same : F.exponent k = F.exponent (k + 1) := by
    rw [exponent_pred, if_neg]
    rintro ⟨edge, -⟩
    rw [edge, leadingBit_even hF, odd] at parity
    cases parity
  rw [midpoint, value_succ, step, step, same]
  ring

/-- The midpoints of an odd pattern are odd multiples of half its last place. -/
theorem exists_odd_of_tie {m : ℕ} {x : ℚ} (odd : m % 2 = 1)
    (tie : x = single.midpoint m ∨ ∃ k, m = k + 1 ∧ x = single.midpoint k) :
    ∃ n : ℕ, x = n * 2 ^ (single.exponent m - 1) ∧
      (n = 2 * single.significand m + 1 ∨ n + 1 = 2 * single.significand m) := by
  rcases tie with rfl | ⟨k, rfl, rfl⟩
  · exact ⟨_, midpoint_eq _ m, .inl rfl⟩
  · have positive := significand_pos (F := single) (Nat.add_one_pos k)
    refine ⟨2 * single.significand (k + 1) - 1, ?_, .inr (by omega)⟩
    rw [midpoint_pred (by decide) odd, value, step, Nat.cast_sub (by omega), zpow_sub_one₀ two_ne_zero]
    push_cast
    ring

end FloatFormat

namespace Decimal

open FloatFormat (single double)

/-- **A shortest decimal that is lost has coarse digits**: else the next one of them would be nearer. -/
theorem step_le_of_tie {m : ℕ} (hm : 0 < m) (finite : m < single.infinity) (odd : m % 2 = 1) {x : ℚ}
    (tie : x = single.midpoint m ∨ ∃ k, m = k + 1 ∧ x = single.midpoint k) :
    single.step m ≤ 10 ^ (shortest single m).2 + 2 * |number (shortest single m).1 (shortest single m).2 - x| := by
  obtain ⟨near, -⟩ := shortest_spec (.inl rfl) hm finite
  obtain ⟨k, rfl⟩ := Nat.exists_eq_add_one_of_ne_zero hm.ne'
  have least : ∀ d, single.midpoint k < number d (shortest single (k + 1)).2 →
      number d (shortest single (k + 1)).2 < single.midpoint (k + 1) → _ := fun d below above =>
    abs_sub_shortest_le (by decide) hm (FloatFormat.IsNearest.of_between below above)
  generalize (shortest single (k + 1)).1 = d at *
  generalize (shortest single (k + 1)).2 = p at *
  have below := FloatFormat.midpoint_pred (F := single) (by decide) odd
  have above : single.midpoint (k + 1) = single.value (k + 1) + single.step (k + 1) / 2 := rfl
  have low := (near.below k rfl).1
  have high := near.above.1
  have grid : (0 : ℚ) < 10 ^ p := zpow_pos (by norm_num) _
  by_contra fine
  rw [not_le] at fine
  rcases tie with rfl | ⟨k', same, rfl⟩
  · -- the next decimal below is nearer than one just below the upper midpoint
    obtain ⟨d, rfl⟩ : ∃ d', d = d' + 1 := by
      refine Nat.exists_eq_add_one_of_ne_zero ?_
      rintro rfl
      have := (single.value_nonneg k).trans_lt (single.value_lt_midpoint k)
      rw [number, Nat.cast_zero, zero_mul] at low
      linarith
    have next := number_succ d p
    rw [abs_sub_comm, abs_of_nonneg (by linarith)] at fine
    have nearer : |single.value (k + 1) - number d p| < |single.value (k + 1) - number (d + 1) p| := by
      rw [abs_sub_comm _ (number (d + 1) p), abs_of_nonneg (a := number (d + 1) p - _) (by linarith), abs_lt]
      constructor <;> linarith
    exact absurd (least d (by linarith) (by linarith)) (not_le.2 nearer)
  · -- and so is the next one above, just above the lower midpoint
    obtain rfl := Nat.succ.inj same
    have next := number_succ d p
    rw [abs_of_nonneg (by linarith)] at fine
    have nearer : |single.value (k + 1) - number (d + 1) p| < |single.value (k + 1) - number d p| := by
      rw [abs_of_nonneg (a := _ - number d p) (by linarith), abs_lt]
      constructor <;> linarith
    exact absurd (least (d + 1) (by linarith) (by linarith)) (not_le.2 nearer)

/-!
## Decimals close to midpoints

In units of half a last place a midpoint is a whole number `n` below `2 ^ 25`, and a coarse power of ten is some fraction.
The decimals that a double takes for midpoints come closer to them than one part in `2 ^ 28`.
-/

/-- Ten to a power, in units of two to an exponent, as a quotient of whole numbers. -/
def inUnits (power exponent : ℤ) : ℕ × ℕ :=
  let unit := scaleByPowerOfTwo 1 1 (-exponent)
  scaleByPowerOfTen unit.1 unit.2 power

theorem inUnits_pos (power exponent : ℤ) : 0 < (inUnits power exponent).1 ∧ 0 < (inUnits power exponent).2 := by
  obtain ⟨n, d⟩ := scaleByPowerOfTwo_pos Nat.one_pos Nat.one_pos (-exponent)
  exact scaleByPowerOfTen_pos n d power

theorem inUnits_div (power exponent : ℤ) :
    ((inUnits power exponent).1 : ℚ) / (inUnits power exponent).2 = 10 ^ power / 2 ^ exponent := by
  rw [inUnits, scaleByPowerOfTen_div, scaleByPowerOfTwo_div, zpow_neg]
  simp [div_eq_mul_inv, mul_comm]

/-- The least power of ten that is not well below two to an exponent. -/
def leastPower (exponent : ℤ) : ℤ := -(-exponent * 30103 / 100000)

/-- What comes close to a midpoint of some binade, if anything does. -/
def tieNumerators (binade : ℕ) : List ℕ := if binade = 42 then [22841339] else []

theorem lt_of_lt_leastPower : ∀ binade : ℕ, binade < 254 →
    let unit := inUnits (leastPower (single.minExponent + binade) - 1) (single.minExponent + binade)
    2 ^ 28 * unit.1 + unit.2 < 2 ^ 28 * unit.2 := by
  decide +kernel

/-- **In all binades but one no decimal comes that close to a midpoint**; in that one it is a single midpoint. -/
theorem sifts_binade : ∀ binade : ℕ, binade < 254 →
    let unit := inUnits (leastPower (single.minExponent + binade)) (single.minExponent + binade - 1)
    (Bracket.around unit.1 unit.2 (2 ^ 25 * unit.2 / unit.1)).Sifts unit.1 unit.2 (2 ^ 28) (2 ^ 25)
      (tieNumerators binade) := by
  decide +kernel

/-- A power of ten that is not well below two to an exponent is one of those that are looked through. -/
theorem leastPower_le {binade : ℕ} (hb : binade < 254) {p : ℤ}
    (coarse : (2 : ℚ) ^ 28 * 2 ^ (single.minExponent + binade) ≤ 2 ^ 28 * 10 ^ p + 2 ^ (single.minExponent + binade)) :
    leastPower (single.minExponent + binade) ≤ p := by
  by_contra less
  have finer := lt_of_lt_leastPower binade hb
  have ratio := inUnits_div (leastPower (single.minExponent + binade) - 1) (single.minExponent + binade)
  have positive := (inUnits_pos (leastPower (single.minExponent + binade) - 1) (single.minExponent + binade)).2
  have power : (10 : ℚ) ^ p ≤ 10 ^ (leastPower (single.minExponent + binade) - 1) :=
    zpow_le_zpow_right₀ (by norm_num) (by omega)
  have two : (0 : ℚ) < 2 ^ (single.minExponent + binade) := zpow_pos two_pos _
  simp only at finer
  generalize inUnits (leastPower (single.minExponent + binade) - 1) (single.minExponent + binade) = unit at *
  generalize (2 : ℚ) ^ (single.minExponent + binade) = step at *
  have positive : (0 : ℚ) < unit.2 := by exact_mod_cast positive
  rw [div_eq_div_iff positive.ne' two.ne'] at ratio
  have finer : (2 ^ 28 * unit.1 + unit.2 : ℚ) < 2 ^ 28 * unit.2 := by exact_mod_cast finer
  have scaled := mul_lt_mul_of_pos_right finer two
  have scaled : (2 ^ 28 * 10 ^ (leastPower (single.minExponent + binade) - 1) + step) * unit.2 <
      2 ^ 28 * step * unit.2 := by linarith
  have := lt_of_mul_lt_mul_right scaled positive.le
  linarith

/-- **A decimal that a double takes for a midpoint has one of the numerators that are left.** -/
theorem exists_dvd_of_tie {binade : ℕ} (hb : binade < 254) {d n : ℕ} {p : ℤ} (hd : 0 < d) (hn : n < 2 ^ 25)
    (coarse : (2 : ℚ) ^ 28 * 2 ^ (single.minExponent + binade) ≤ 2 ^ 28 * 10 ^ p + 2 ^ (single.minExponent + binade))
    (apart : number d p ≠ n * 2 ^ (single.minExponent + binade - 1))
    (close : |number d p - n * 2 ^ (single.minExponent + binade - 1)| * 2 ^ 28 < 2 ^ (single.minExponent + binade - 1)) :
    ∃ c ∈ tieNumerators binade, c ∣ n := by
  obtain ⟨j, rfl⟩ := Int.le.dest (leastPower_le hb coarse)
  have hd' : 0 < d * 10 ^ j := Nat.mul_pos hd (Nat.pow_pos (by decide))
  have sifts := sifts_binade binade hb
  have ratio := inUnits_div (leastPower (single.minExponent + binade)) (single.minExponent + binade - 1)
  have positive := (inUnits_pos (leastPower (single.minExponent + binade)) (single.minExponent + binade - 1)).2
  have two : (0 : ℚ) < 2 ^ (single.minExponent + binade - 1) := zpow_pos two_pos _
  rw [← number_mul_pow] at apart close
  simp only at sifts
  generalize inUnits (leastPower (single.minExponent + binade)) (single.minExponent + binade - 1) = unit at *
  generalize (2 : ℚ) ^ (single.minExponent + binade - 1) = half at *
  generalize d * 10 ^ j = d at *
  have positive : (0 : ℚ) < unit.2 := by exact_mod_cast positive
  rw [eq_div_iff two.ne'] at ratio
  have distance : number d (leastPower (single.minExponent + binade)) - n * half =
      (d * unit.1 - n * unit.2 : ℤ) / unit.2 * half := by
    rw [number, ← ratio]
    push_cast
    field_simp
  refine sifts.exists_dvd (by decide) hd' hn (fun same => apart ?_) ?_
  · rw [same, Int.cast_zero, zero_div, zero_mul] at distance
    exact sub_eq_zero.1 distance
  · rw [distance, abs_mul, abs_div, abs_of_pos positive, abs_of_pos two, mul_right_comm, mul_lt_iff_lt_one_left two,
      div_mul_eq_mul_div, div_lt_one positive, ← Int.cast_abs, ← Nat.cast_natAbs] at close
    exact_mod_cast close

theorem exists_binade {m : ℕ} (finite : m < single.infinity) :
    ∃ binade : ℕ, binade < 254 ∧ single.exponent m = single.minExponent + binade := by
  rcases single.pattern_cases m with subnormal | ⟨k, r, hr, rfl⟩
  · exact ⟨0, by decide, by rw [single.exponent_subnormal subnormal, Nat.cast_zero, add_zero]⟩
  · refine ⟨k, ?_, single.exponent_binade k hr⟩
    have : single.infinity = 255 * single.leadingBit := rfl
    nlinarith

/-- The last place of a double that is a midpoint of single precision is that far behind the midpoint's. -/
theorem step_lt_of_midpoint {f n : ℕ} {exponent : ℤ} (least : single.minExponent ≤ exponent) (hn : n < 2 ^ 25)
    (value : double.value f = n * 2 ^ (exponent - 1)) : 2 ^ 27 * double.step f < 2 ^ (exponent - 1) := by
  have half : (0 : ℚ) < 2 ^ (exponent - 1) := zpow_pos two_pos _
  rcases double.step_le f with subnormal | normal
  · rw [subnormal, ← zpow_natCast, ← zpow_add₀ two_ne_zero]
    refine zpow_lt_zpow_right₀ one_lt_two ?_
    have : single.minExponent = -149 ∧ double.minExponent = -1074 := by decide
    omega
  · have few : (n : ℚ) < 2 ^ 25 := by exact_mod_cast hn
    have few := mul_lt_mul_of_pos_right few half
    rw [value, double.leadingBit_eq, show double.fractionBits = 52 from rfl] at normal
    linarith

/-- The one binade that has such a midpoint has a single one, the one above the exception. -/
theorem eq_of_mem_tieNumerators {m binade n c : ℕ} (odd : m % 2 = 1)
    (exponent : single.exponent m = single.minExponent + binade) (hn : n < 2 ^ 25)
    (shape : n = 2 * single.significand m + 1 ∨ n + 1 = 2 * single.significand m) (mem : c ∈ tieNumerators binade)
    (dvd : c ∣ n) : m = 0x15ae43fd := by
  rw [tieNumerators] at mem
  split at mem
  · rename_i unusual
    obtain rfl := List.mem_singleton.1 mem
    obtain ⟨times, rfl⟩ := dvd
    have parity := FloatFormat.significand_parity (F := single) (by decide) m
    obtain ⟨rfl, significand⟩ : times = 1 ∧ single.significand m = 11420669 := by omega
    have leading : single.leadingBit = 2 ^ 23 := rfl
    rcases single.pattern_cases m with subnormal | ⟨k, r, hr, rfl⟩
    · rw [single.exponent_subnormal subnormal] at exponent
      omega
    · rw [single.exponent_binade k hr] at exponent
      rw [single.significand_binade k hr] at significand
      obtain rfl : k = 42 := by omega
      omega
  · cases mem

/-- **What is written as its shortest decimal is found again by way of a double**, one number apart. -/
theorem isNearest_double {m f : ℕ} (hm : 0 < m) (finite : m < single.infinity) (usual : m ≠ 0x15ae43fd)
    (near' : double.IsNearest (number (shortest single m).1 (shortest single m).2) f) :
    single.IsNearest (double.value f) m := by
  obtain ⟨near, -⟩ := shortest_spec (.inl rfl) hm finite
  by_contra lost
  obtain ⟨odd, tie⟩ := FloatFormat.tie_of_not_isNearest near near' lost
  obtain ⟨n, value, shape⟩ := FloatFormat.exists_odd_of_tie odd tie
  obtain ⟨binade, hb, exponent⟩ := exists_binade finite
  have hn : n < 2 ^ 25 := by
    have := single.significand_lt m
    have : single.leadingBit = 2 ^ 23 := rfl
    omega
  have fine := step_lt_of_midpoint (single.minExponent_le m) hn value
  have away := near'.abs_sub_le (range_of_single hm finite near near').1
  have coarse := step_le_of_tie hm finite odd tie
  have half : (2 : ℚ) ^ single.exponent m = 2 * 2 ^ (single.exponent m - 1) := by
    rw [zpow_sub_one₀ two_ne_zero]
    ring
  have step : single.step m = 2 ^ single.exponent m := rfl
  have some : 0 < (shortest single m).1 := by
    refine Nat.pos_of_ne_zero fun zero => ?_
    have := near.value_le hm
    have := single.value_strictMono hm
    rw [zero, number, Nat.cast_zero, zero_mul] at *
    linarith [single.value_nonneg 0]
  have apart : number (shortest single m).1 (shortest single m).2 ≠ double.value f := fun same => lost (same ▸ near)
  obtain ⟨c, mem, dvd⟩ := exists_dvd_of_tie hb some hn (p := (shortest single m).2)
    (by rw [← exponent]; linarith) (by rwa [← exponent, ← value]) (by rw [← exponent, ← value]; linarith)
  exact usual (eq_of_mem_tieNumerators odd exponent hn shape mem dvd)

end Decimal

end AssetRecords
