import Mathlib.Data.Int.GCD
import Mathlib.Tactic.LinearCombination
import Mathlib.Tactic.Linarith
/-!
# Fractions — what comes close to a fraction

Two fractions next to each other, one on either side of a third one, tell all that comes close to it: whatever has a
denominator less than their denominators together, and is nearer than they are together, has the numerator of one of
them or a multiple of it (`Bracket.exists_dvd_of_close`).  So a finite check says which numerators there are.
-/
namespace AssetRecords

/-- Two fractions: one not above a third one, and one not below. -/
structure Bracket where
  lowDen : ℕ
  lowNum : ℕ
  highDen : ℕ
  highNum : ℕ

namespace Bracket

/-- How far the lower fraction is below `num / den`, with both brought to one denominator. -/
def below (b : Bracket) (num den : ℕ) : ℕ := b.lowDen * num - b.lowNum * den

def above (b : Bracket) (num den : ℕ) : ℕ := b.highNum * den - b.highDen * num

/-- The bracket drawn together around `num / den` as far as denominators up to `most` allow: again and again the side
that is further off takes the other one in, as often as it can. -/
def narrow (num den most : ℕ) : (fuel : ℕ) → Bracket → Bracket
  | 0, b => b
  | fuel + 1, b =>
    if most < b.lowDen + b.highDen then b
    else if b.above num den ≤ b.below num den then
      let times := min (b.below num den / b.above num den) ((most - b.lowDen) / b.highDen)
      narrow num den most fuel
        { b with lowDen := b.lowDen + times * b.highDen, lowNum := b.lowNum + times * b.highNum }
    else
      let times := min (b.above num den / b.below num den) ((most - b.highDen) / b.lowDen)
      narrow num den most fuel
        { b with highDen := b.highDen + times * b.lowDen, highNum := b.highNum + times * b.lowNum }

/-- The bracket of two fractions around `num / den` with denominators up to `most`. -/
def around (num den most : ℕ) : Bracket := narrow num den most 32 ⟨1, num / den, 1, num / den + 1⟩

/-- The fractions are on either side of `num / den`, and nothing is between them but what is made up of them. -/
structure Encloses (b : Bracket) (num den : ℕ) : Prop where
  low : b.lowNum * den ≤ b.lowDen * num
  high : b.highDen * num ≤ b.highNum * den
  adjacent : b.highNum * b.lowDen = b.lowNum * b.highDen + 1

instance (b : Bracket) (num den : ℕ) : Decidable (b.Encloses num den) :=
  decidable_of_iff (b.lowNum * den ≤ b.lowDen * num ∧ b.highDen * num ≤ b.highNum * den ∧
    b.highNum * b.lowDen = b.lowNum * b.highDen + 1) ⟨fun h => ⟨h.1, h.2.1, h.2.2⟩, fun h => ⟨h.low, h.high, h.adjacent⟩⟩

/-- The numerators below a limit of those sides that come closer to `num / den` than one part in `scale`. -/
def candidates (b : Bracket) (num den scale limit : ℕ) : List ℕ :=
  (if b.below num den * scale < den ∧ b.lowNum < limit then [b.lowNum] else []) ++
    if b.above num den * scale < den ∧ b.highNum < limit then [b.highNum] else []

variable {b : Bracket} {num den : ℕ}

/-- Every pair of numbers is a combination of the two fractions, and so is its distance. -/
theorem Encloses.exists_combination (h : b.Encloses num den) (d n : ℤ) : ∃ i j : ℤ,
    d = i * b.lowDen + j * b.highDen ∧ n = i * b.lowNum + j * b.highNum ∧
      d * num - n * den = i * b.below num den - j * b.above num den := by
  have adjacent : (b.highNum * b.lowDen : ℤ) = b.lowNum * b.highDen + 1 := by exact_mod_cast h.adjacent
  have below : (b.below num den : ℤ) = b.lowDen * num - b.lowNum * den := by
    rw [below, Nat.cast_sub h.low]
    push_cast
    rfl
  have above : (b.above num den : ℤ) = b.highNum * den - b.highDen * num := by
    rw [above, Nat.cast_sub h.high]
    push_cast
    rfl
  refine ⟨d * b.highNum - n * b.highDen, n * b.lowDen - d * b.lowNum, ?_, ?_, ?_⟩
  · linear_combination (-d) * adjacent
  · linear_combination (-n) * adjacent
  · rw [below, above]
    linear_combination (n * den - d * num) * adjacent

/-- A multiple of a fraction is no nearer than the fraction, and its numerator is no less. -/
theorem side_of_multiple {i : ℤ} {k h distance d n scale limit : ℕ} (hd : 0 < d) (den_eq : (d : ℤ) = i * k)
    (num_eq : (n : ℤ) = i * h) (hn : n < limit) (close : (i * distance : ℤ).natAbs * scale < den) :
    distance * scale < den ∧ h < limit ∧ h ∣ n := by
  have positive : 0 < i := by
    by_contra negative
    have := mul_nonpos_of_nonpos_of_nonneg (not_lt.1 negative) (Int.natCast_nonneg k)
    omega
  obtain ⟨i, rfl⟩ := Int.eq_ofNat_of_zero_le positive.le
  have positive : 1 ≤ i := by omega
  have num_eq : n = i * h := by exact_mod_cast num_eq
  have size : (i * distance : ℤ).natAbs = i * distance := Int.natAbs_natCast (i * distance)
  rw [size] at close
  refine ⟨lt_of_le_of_lt ?_ close, lt_of_le_of_lt ?_ hn, i, ?_⟩
  · exact Nat.mul_le_mul_right _ (Nat.le_mul_of_pos_left _ positive)
  · rw [num_eq]
    exact Nat.le_mul_of_pos_left _ positive
  · rw [num_eq, Nat.mul_comm]

/-- **What comes close is a multiple of a side that does.** -/
theorem exists_dvd_of_close (h : b.Encloses num den) {scale limit d n : ℕ} (hd : 0 < d)
    (small : d < b.lowDen + b.highDen) (wide : den ≤ (b.below num den + b.above num den) * scale) (hn : n < limit)
    (close : (d * num - n * den : ℤ).natAbs * scale < den) : ∃ c ∈ b.candidates num den scale limit, c ∣ n := by
  obtain ⟨i, j, den_eq, num_eq, distance⟩ := h.exists_combination d n
  have near : ¬ (b.below num den + b.above num den ≤ (d * num - n * den : ℤ).natAbs) := fun far =>
    absurd (wide.trans (Nat.mul_le_mul_right scale far)) (Nat.not_le.2 close)
  rw [distance] at near close
  have none : ¬ (i ≤ 0 ∧ j ≤ 0) := by
    rintro ⟨hi, hj⟩
    have := mul_nonpos_of_nonpos_of_nonneg hi (Int.natCast_nonneg b.lowDen)
    have := mul_nonpos_of_nonpos_of_nonneg hj (Int.natCast_nonneg b.highDen)
    omega
  -- with both sides in it a pair has too great a denominator, or it is as far off as both sides together
  have both : ¬ (0 < i ∧ 0 < j) := by
    rintro ⟨hi, hj⟩
    have := le_mul_of_one_le_left (Int.natCast_nonneg b.lowDen) hi
    have := le_mul_of_one_le_left (Int.natCast_nonneg b.highDen) hj
    omega
  have apart : ¬ (i < 0 ∧ 0 < j) ∧ ¬ (0 < i ∧ j < 0) := by
    have low := Int.natCast_nonneg (b.below num den)
    have high := Int.natCast_nonneg (b.above num den)
    constructor
    · rintro ⟨hi, hj⟩
      have : i * b.below num den ≤ -b.below num den := by nlinarith
      have := le_mul_of_one_le_left high hj
      omega
    · rintro ⟨hi, hj⟩
      have : j * b.above num den ≤ -b.above num den := by nlinarith
      have := le_mul_of_one_le_left low hi
      omega
  obtain rfl | rfl : j = 0 ∨ i = 0 := by omega
  · rw [zero_mul, add_zero] at den_eq num_eq
    rw [zero_mul, sub_zero] at close
    obtain ⟨side, bounded, dvd⟩ := side_of_multiple hd den_eq num_eq hn close
    exact ⟨_, List.mem_append_left _ (by rw [if_pos ⟨side, bounded⟩]; exact List.mem_singleton_self _), dvd⟩
  · rw [zero_mul, zero_add] at den_eq num_eq
    rw [zero_mul, zero_sub, Int.natAbs_neg] at close
    obtain ⟨side, bounded, dvd⟩ := side_of_multiple hd den_eq num_eq hn close
    exact ⟨_, List.mem_append_right _ (by rw [if_pos ⟨side, bounded⟩]; exact List.mem_singleton_self _), dvd⟩

/-- A bracket by which all that comes close to `num / den`, its numerator being less than a limit, has one of these
numerators or a multiple of it; or `num / den` has so small a denominator that nothing comes close to it. -/
def Sifts (b : Bracket) (num den scale limit : ℕ) (numerators : List ℕ) : Prop :=
  den ≤ Nat.gcd num den * scale ∨
    b.Encloses num den ∧ limit * den ≤ (b.lowDen + b.highDen) * num ∧
      den ≤ (b.below num den + b.above num den) * scale ∧ b.candidates num den scale limit = numerators

instance (b : Bracket) (num den scale limit : ℕ) (numerators : List ℕ) :
    Decidable (b.Sifts num den scale limit numerators) := inferInstanceAs (Decidable (_ ∨ _ ∧ _ ∧ _ ∧ _))

theorem Sifts.exists_dvd {scale limit : ℕ} {numerators : List ℕ} (h : b.Sifts num den scale limit numerators)
    (scaled : 0 < scale) {d n : ℕ} (hd : 0 < d) (hn : n < limit) (apart : (d * num - n * den : ℤ) ≠ 0)
    (close : (d * num - n * den : ℤ).natAbs * scale < den) : ∃ c ∈ numerators, c ∣ n := by
  rcases h with few | ⟨encloses, reach, wide, rfl⟩
  · have common : (Nat.gcd num den : ℤ) ∣ d * num - n * den := Int.dvd_sub
      (dvd_mul_of_dvd_right (Int.natCast_dvd_natCast.2 (Nat.gcd_dvd_left num den)) _)
      (dvd_mul_of_dvd_right (Int.natCast_dvd_natCast.2 (Nat.gcd_dvd_right num den)) _)
    have least := Nat.le_of_dvd (Int.natAbs_pos.2 apart) (Int.natCast_dvd.1 common)
    exact absurd (few.trans (Nat.mul_le_mul_right _ least)) (Nat.not_le.2 close)
  · refine exists_dvd_of_close encloses hd ?_ wide hn close
    have size := Nat.le_mul_of_pos_right (d * num - n * den : ℤ).natAbs scaled
    have near : d * num < (n + 1) * den := by
      have : (d * num - n * den : ℤ) < den := by omega
      zify
      linarith
    exact Nat.lt_of_mul_lt_mul_right (near.trans_le ((Nat.mul_le_mul_right den hn).trans reach))

end Bracket
end AssetRecords
