import AssetRecords.Proofs.Decimal.Shortest
import AssetRecords.Proofs.Number
import Mathlib.Data.List.TakeWhile
/-!
# Texts — decimals in positional notation

A decimal in positional notation is read as that decimal, its zeros before the point written out (`plain`).  So a finite
number is read from its text (`floating?_chars`).
-/
namespace AssetRecords
namespace Decimal

/-- A text with a minus sign or without. -/
def signed (negative : Bool) (cs : List Char) : List Char := if negative then '-' :: cs else cs

/-- A decimal whose zeros before the point are digits. -/
def plain (d : ℕ) (p : ℤ) : ℕ × ℤ := (d * 10 ^ p.toNat, min p 0)

theorem number_plain (d : ℕ) (p : ℤ) : number (plain d p).1 (plain d p).2 = number d p := by
  obtain ⟨n, rfl | rfl⟩ := p.eq_nat_or_neg
  · simp [plain, number]
  · have : (-(n : ℤ)).toNat = 0 := by omega
    simp [plain, this]

/-!
## The digits before and behind the point
-/

theorem positional_natural {d : ℕ} (hd : 0 < d) (n : ℕ) : positional d n = Nat.toDigits 10 (d * 10 ^ n) := by
  have whole : (-(n : ℤ)).toNat = 0 := by omega
  rw [positional, if_pos whole, Int.toNat_natCast]
  induction n with
  | zero => rw [List.replicate_zero, List.append_nil, pow_zero, Nat.mul_one]
  | succ n ih =>
    have zero : Nat.toDigits 10 0 = ['0'] := rfl
    rw [List.replicate_succ', ← List.append_assoc, ih (by omega), ← zero,
      Nat.toDigits_append_toDigits (by decide) (Nat.mul_pos hd (Nat.pow_pos (by decide))) (by decide)]
    congr 1
    ring

theorem ofDigitChars_zeros (n : ℕ) (cs : List Char) :
    Nat.ofDigitChars 10 (List.replicate n '0' ++ cs) 0 = Nat.ofDigitChars 10 cs 0 := by
  induction n with
  | zero => rfl
  | succ n ih => exact ih

/-- Digits with a point among them: the digits before it begin with a zero only if it is the only one. -/
structure Pointed (d places : ℕ) (whole fraction : List Char) : Prop where
  length : fraction.length = places
  digits : ∀ c ∈ whole ++ fraction, c.isDigit = true
  number : Nat.ofDigitChars 10 (whole ++ fraction) 0 = d
  first : whole = ['0'] ∨ whole ≠ [] ∧ whole.head? ≠ some '0'

theorem positional_fraction {d : ℕ} (hd : 0 < d) {n : ℕ} (hn : 0 < n) :
    ∃ whole fraction, positional d (-n) = whole ++ '.' :: fraction ∧ Pointed d n whole fraction := by
  have places : (-(-(n : ℤ))).toNat = n := by omega
  have digits : ∀ c ∈ Nat.toDigits 10 d, c.isDigit = true := fun c hc =>
    Nat.isDigit_of_mem_toDigits (by decide) (by decide) hc
  rw [positional, places, if_neg hn.ne']
  by_cases long : n < (Nat.toDigits 10 d).length
  · have together := List.take_append_drop ((Nat.toDigits 10 d).length - n) (Nat.toDigits 10 d)
    refine ⟨_, _, if_pos long, ?_, ?_, ?_, .inr ⟨?_, ?_⟩⟩
    · rw [List.length_drop]
      omega
    · rwa [together]
    · rw [together, Nat.ofDigitChars_ten_toDigits]
    · intro empty
      have := congrArg List.length empty
      rw [List.length_take, List.length_nil] at this
      omega
    · rw [List.head?_take, if_neg (by omega)]
      exact head?_toDigits_ne_zero hd
  · refine ⟨['0'], List.replicate (n - (Nat.toDigits 10 d).length) '0' ++ Nat.toDigits 10 d, if_neg long, ?_, ?_, ?_,
      .inl rfl⟩
    · rw [List.length_append, List.length_replicate]
      omega
    · intro c hc
      rw [List.singleton_append] at hc
      rcases List.mem_cons.1 hc with rfl | hc
      · decide
      rcases List.mem_append.1 hc with zero | digit
      · rw [List.eq_of_mem_replicate zero]
        decide
      · exact digits c digit
    · have zeros := ofDigitChars_zeros (n - (Nat.toDigits 10 d).length + 1) (Nat.toDigits 10 d)
      rw [Nat.ofDigitChars_ten_toDigits] at zeros
      exact zeros

/-- A decimal is written with all its digits, or with a point among them. -/
theorem positional_cases {d : ℕ} {p : ℤ} (h : d = 0 → p = 0) :
    (0 ≤ p ∧ positional d p = Nat.toDigits 10 (d * 10 ^ p.toNat)) ∨
      ∃ (n : ℕ) (whole fraction : List Char), 0 < n ∧ p = -n ∧ positional d p = whole ++ '.' :: fraction ∧
        Pointed d n whole fraction := by
  rcases Nat.eq_zero_or_pos d with rfl | hd
  · rw [h rfl]
    exact .inl ⟨le_rfl, by decide⟩
  by_cases natural : 0 ≤ p
  · obtain ⟨n, rfl⟩ := Int.eq_ofNat_of_zero_le natural
    rw [positional_natural hd, Int.toNat_natCast]
    exact .inl ⟨natural, rfl⟩
  · obtain ⟨n, rfl⟩ : ∃ n : ℕ, p = -n := ⟨p.natAbs, by omega⟩
    have hn : 0 < n := by omega
    obtain ⟨whole, fraction, text, pointed⟩ := positional_fraction hd hn
    exact .inr ⟨n, whole, fraction, hn, rfl, text, pointed⟩

theorem exists_toDigits_eq_cons (n : ℕ) : ∃ c tail, Nat.toDigits 10 n = c :: tail ∧ c.isDigit = true := by
  obtain ⟨c, tail, digits⟩ := List.exists_cons_of_ne_nil (Nat.toDigits_ne_nil (n := n) (b := 10))
  exact ⟨c, tail, digits, Nat.isDigit_of_mem_toDigits (b := 10) (by decide) (by decide) (digits ▸ List.mem_cons_self)⟩

theorem Pointed.exists_eq_cons {d places : ℕ} {whole fraction : List Char} (h : Pointed d places whole fraction) :
    ∃ c tail, whole = c :: tail ∧ c.isDigit = true := by
  have some : whole ≠ [] := by
    rcases h.first with rfl | ⟨some, -⟩
    · exact List.cons_ne_nil _ _
    · exact some
  obtain ⟨c, tail, rfl⟩ := List.exists_cons_of_ne_nil some
  exact ⟨c, tail, rfl, h.digits c List.mem_cons_self⟩

/-- A decimal begins with a digit. -/
theorem exists_positional_eq_cons {d : ℕ} {p : ℤ} (h : d = 0 → p = 0) :
    ∃ c tail, positional d p = c :: tail ∧ c.isDigit = true := by
  rcases positional_cases h with ⟨-, text⟩ | ⟨n, whole, fraction, -, -, text, pointed⟩
  · rw [text]
    exact exists_toDigits_eq_cons _
  · obtain ⟨c, tail, rfl, digit⟩ := pointed.exists_eq_cons
    exact ⟨c, tail ++ '.' :: fraction, text, digit⟩

/-!
## Reading
-/

theorem isExponentMark_of_isDigit {c : Char} (h : c.isDigit = true) : isExponentMark c = false := by
  rw [Bool.eq_false_iff]
  intro mark
  rw [isExponentMark, Bool.or_eq_true, beq_iff_eq, beq_iff_eq] at mark
  rcases mark with rfl | rfl <;> exact absurd h (by decide)

theorem ne_point_of_isDigit {c : Char} (h : c.isDigit = true) : (c != '.') = true := by
  rw [bne_iff_ne]
  rintro rfl
  exact absurd h (by decide)

/-- Without an exponent mark a text is all mantissa. -/
theorem unsigned?_of_mantissa {cs : List Char} (h : ∀ c ∈ cs, isExponentMark c = false) : unsigned? cs =
    (digits? (cs.takeWhile (· != '.') ++ (cs.dropWhile (· != '.')).drop 1)).map fun digits =>
      (digits, -(((cs.dropWhile (· != '.')).drop 1).length : ℤ)) := by
  have mantissa : ∀ c ∈ cs, (!isExponentMark c) = true := fun c hc => by rw [h c hc]; rfl
  rw [unsigned?, List.takeWhile_eq_self_iff.2 mantissa, List.dropWhile_eq_nil_iff.2 mantissa, Option.map_eq_bind]
  simp only [Option.bind_eq_bind, Option.bind_some, zero_sub]
  rfl

theorem digits?_eq_some {cs : List Char} (some : cs ≠ []) (h : ∀ c ∈ cs, c.isDigit = true) :
    digits? cs = .some (Nat.ofDigitChars 10 cs 0) := by
  rw [digits?, if_pos]
  exact Bool.and_eq_true_iff.2 ⟨by rw [List.isEmpty_eq_false_iff.2 some]; rfl, List.all_eq_true.2 h⟩

theorem unsigned?_toDigits (n : ℕ) : unsigned? (Nat.toDigits 10 n) = some (n, 0) := by
  have digits : ∀ c ∈ Nat.toDigits 10 n, c.isDigit = true := fun c hc =>
    Nat.isDigit_of_mem_toDigits (by decide) (by decide) hc
  have whole : ∀ c ∈ Nat.toDigits 10 n, (c != '.') = true := fun c hc => ne_point_of_isDigit (digits c hc)
  rw [unsigned?_of_mantissa fun c hc => isExponentMark_of_isDigit (digits c hc), List.takeWhile_eq_self_iff.2 whole,
    List.dropWhile_eq_nil_iff.2 whole, List.drop_nil, List.append_nil, digits?_toDigits]
  rfl

theorem unsigned?_pointed {d places : ℕ} {whole fraction : List Char} (h : Pointed d places whole fraction) :
    unsigned? (whole ++ '.' :: fraction) = some (d, -(places : ℤ)) := by
  have before : ∀ c ∈ whole, (c != '.') = true := fun c hc =>
    ne_point_of_isDigit (h.digits c (List.mem_append_left _ hc))
  have mantissa : ∀ c ∈ whole ++ '.' :: fraction, isExponentMark c = false := by
    intro c hc
    rcases List.mem_append.1 hc with hc | hc
    · exact isExponentMark_of_isDigit (h.digits c (List.mem_append_left _ hc))
    rcases List.mem_cons.1 hc with rfl | hc
    · decide
    · exact isExponentMark_of_isDigit (h.digits c (List.mem_append_right _ hc))
  have some : whole ++ fraction ≠ [] := by
    obtain ⟨c, tail, rfl, -⟩ := h.exists_eq_cons
    exact List.cons_ne_nil _ _
  rw [unsigned?_of_mantissa mantissa, List.takeWhile_append_of_pos before, List.dropWhile_append_of_pos before,
    List.takeWhile_cons_of_neg (by decide), List.dropWhile_cons_of_neg (by decide), List.append_nil, List.drop_one,
    List.tail_cons, digits?_eq_some some h.digits, h.number, h.length]
  rfl

/-- **A decimal is read from its positional notation.** -/
theorem unsigned?_positional {d : ℕ} {p : ℤ} (h : d = 0 → p = 0) :
    unsigned? (positional d p) = some (plain d p) := by
  rcases positional_cases h with ⟨natural, text⟩ | ⟨n, whole, fraction, hn, rfl, text, pointed⟩
  · rw [text, unsigned?_toDigits, plain, min_eq_right natural]
  · have power : (-(n : ℤ)).toNat = 0 := by omega
    rw [text, unsigned?_pointed pointed, plain, power, pow_zero, Nat.mul_one, min_eq_left (by omega)]

/-!
## The number that is read
-/

section Stored

variable {F : FloatFormat}

theorem exists_isNearest (h : F.IsStored) (d : ℕ) (p : ℤ) : ∃ m, F.IsNearest (number d p) m := by
  have positive : 0 < (scaleByPowerOfTen d 1 p).2 := (scaleByPowerOfTen_pos Nat.one_pos Nat.one_pos p).2
  have near := FloatFormat.exists_isNearest h.bounds.1 (scaleByPowerOfTen d 1 p).1 positive
  rwa [scaleByPowerOfTen_div, Nat.cast_one, div_one] at near

/-- How many digits a decimal has before the point tells its order of magnitude. -/
theorem number_bounds {d : ℕ} (hd : 0 < d) (p : ℤ) :
    (10 : ℚ) ^ ((Nat.toDigits 10 d).length + p - 1) ≤ number d p ∧
      number d p < 10 ^ ((Nat.toDigits 10 d).length + p) := by
  obtain ⟨n, hn⟩ := Nat.exists_eq_add_one_of_ne_zero (Nat.length_toDigits_pos (b := 10) (n := d)).ne'
  have grid : (0 : ℚ) < 10 ^ p := zpow_pos (by norm_num) _
  have high : d < 10 ^ (n + 1) := (Nat.length_toDigits_le_iff (by decide) (Nat.succ_pos n)).1 hn.le
  have low : 10 ^ n ≤ d := by
    rcases Nat.eq_zero_or_pos n with rfl | positive
    · exact hd
    · by_contra less
      have := (Nat.length_toDigits_le_iff (b := 10) (by decide) positive).2 (not_le.1 less)
      omega
  have before : ((n + 1 : ℕ) + p - 1 : ℤ) = n + p := by push_cast; ring
  rw [hn, before, zpow_add₀ (by norm_num), zpow_add₀ (by norm_num), zpow_natCast, zpow_natCast, number,
    mul_le_mul_iff_left₀ grid, mul_lt_mul_iff_left₀ grid]
  exact ⟨by exact_mod_cast low, by exact_mod_cast high⟩

/-- **A decimal is read as the pattern that it rounds to**, however far its power of ten is from the format's range. -/
theorem nearestDecimal_eq (h : F.IsStored) {m : ℕ} (finite : m < F.infinity) {d : ℕ} {p : ℤ}
    (near : F.IsNearest (number d p) m) : F.nearestDecimal d p = m := by
  have ten : (1 : ℚ) ≤ 10 := by norm_num
  obtain ⟨least, greatest⟩ := h.reach
  unfold FloatFormat.nearestDecimal
  simp only
  split
  · rename_i nothing
    rcases m with _ | m
    · rfl
    · -- what rounds to a pattern above zero is not that small
      have low := F.midpoint_strictMono.monotone (Nat.zero_le m)
      have small : number d p < F.midpoint 0 := by
        rw [FloatFormat.midpoint, F.value_zero, zero_add, FloatFormat.step, F.exponent_subnormal F.leadingBit_pos,
          div_eq_mul_inv, ← zpow_sub_one₀ two_ne_zero]
        rcases Nat.eq_zero_or_pos d with rfl | hd
        · rw [number, Nat.cast_zero, zero_mul]
          exact zpow_pos two_pos _
        · have short : ((Nat.toDigits 10 d).length : ℤ) + p ≤ -(F.decimalReach : ℤ) :=
            (nothing.resolve_left hd.ne').le
          calc number d p < 10 ^ ((Nat.toDigits 10 d).length + p) := (number_bounds hd p).2
            _ ≤ 10 ^ (-(F.decimalReach : ℤ)) := zpow_le_zpow_right₀ ten short
            _ ≤ 2 ^ (-(F.decimalReach : ℤ)) := by
              rw [zpow_neg, zpow_neg, zpow_natCast, zpow_natCast]
              exact inv_anti₀ (by positivity) (pow_le_pow_left₀ (by norm_num) (by norm_num) _)
            _ ≤ 2 ^ (F.minExponent - 1) := zpow_le_zpow_right₀ one_le_two least
      linarith [(near.below m rfl).1]
  · rename_i some
    have hd : 0 < d := Nat.pos_of_ne_zero fun zero => some (.inl zero)
    split
    · rename_i long
      -- what rounds to a finite pattern is not that large
      have large : (2 : ℚ) ^ (F.decimalReach : ℤ) ≤ number d p :=
        calc (2 : ℚ) ^ (F.decimalReach : ℤ) ≤ 10 ^ (F.decimalReach : ℤ) := by
              rw [zpow_natCast, zpow_natCast]
              exact pow_le_pow_left₀ (by norm_num) (by norm_num) _
          _ ≤ 10 ^ ((Nat.toDigits 10 d).length + p - 1) := zpow_le_zpow_right₀ ten (by omega)
          _ ≤ number d p := (number_bounds hd p).1
      have high : number d p < 2 ^ (F.decimalReach : ℤ) :=
        calc number d p < F.value (m + 1) := near.lt_value_succ
          _ ≤ F.value F.infinity := F.value_strictMono.monotone finite
          _ ≤ 2 ^ (F.fractionBits + 1 + F.exponent F.infinity) := by
              have bound : (F.significand F.infinity : ℚ) ≤ 2 * F.leadingBit := by
                exact_mod_cast (F.significand_lt F.infinity).le
              rw [FloatFormat.value, zpow_add₀ two_ne_zero, zpow_add₀ two_ne_zero, zpow_natCast, zpow_one,
                ← F.leadingBit_eq]
              exact mul_le_mul_of_nonneg_right (by linarith) (zpow_pos two_pos _).le
          _ ≤ 2 ^ (F.decimalReach : ℤ) := zpow_le_zpow_right₀ one_le_two greatest
      exact absurd high (not_lt.2 large)
    · rw [FloatFormat.nearest_eq_iff h.bounds.1 (scaleByPowerOfTen_pos hd Nat.one_pos p).2 finite,
        scaleByPowerOfTen_div, Nat.cast_one, div_one]
      exact near

end Stored

/-!
## Numbers and their texts
-/

theorem toLower_of_isDigit {c : Char} (h : c.isDigit = true) : c.toLower = c := by
  have high : c.toNat ≤ 57 := (Char.isDigit_iff_toNat.1 h).2
  have small : ¬ (c.val ≥ 'A'.val ∧ c.val ≤ 'Z'.val) := by
    rintro ⟨low, -⟩
    have : 65 ≤ c.toNat := low
    omega
  exact dif_neg small

/-- What begins with a digit is no name of a number. -/
theorem floating?_signed {F : FloatFormat} (negative : Bool) {c : Char} {tail : List Char} (h : c.isDigit = true) :
    floating? F (signed negative (c :: tail)) =
      (unsigned? (c :: tail)).map fun d => .ofDecimal F negative d.1 d.2 := by
  have nameless : ∀ word : String, word.toList.head? ≠ some c → isWord word (c :: tail) = false := by
    intro word other
    rw [isWord, List.map_cons, toLower_of_isDigit h, beq_eq_false_iff_ne]
    intro same
    rw [← same] at other
    exact other rfl
  have other : ∀ d : Char, d.isDigit = false → some d ≠ some c := by
    rintro d hd ⟨⟩
    rw [h] at hd
    cases hd
  have body : floating?.body F negative (c :: tail) =
      (unsigned? (c :: tail)).map fun d => .ofDecimal F negative d.1 d.2 := by
    rw [floating?.body, nameless "inf" (other _ rfl), nameless "infinity" (other _ rfl), nameless "nan" (other _ rfl)]
    rfl
  rw [← body]
  cases negative with
  | true => rfl
  | false =>
    have minus : c ≠ '-' := fun same => other '-' rfl (by rw [same])
    have plus : c ≠ '+' := fun same => other '+' rfl (by rw [same])
    show floating? F (c :: tail) = _
    rw [floating?]
    · rintro _ ⟨⟩
      exact minus rfl
    · rintro _ ⟨⟩
      exact plus rfl

end Decimal

namespace Floating

open Decimal (positional signed number)

variable {F : FloatFormat} {x : Floating F}

/-- The decimal that a finite number is written as. -/
def decimal (x : Floating F) : ℕ × ℤ := if x.magnitude = 0 then (0, 0) else Decimal.shortest F x.magnitude

theorem chars_of_isFinite (finite : x.isFinite = true) :
    x.chars = signed x.negative (positional x.decimal.1 x.decimal.2) := by
  have finite := isFinite_iff.1 finite
  have number : x.isNaN = false := decide_eq_false (by omega)
  have bounded : x.isInfinite = false := decide_eq_false (by omega)
  rw [chars, number, bounded, decimal, signed]
  by_cases zero : x.magnitude = 0
  · simp only [if_pos zero]
    rfl
  · simp only [if_neg zero]
    rfl

theorem isNearest_decimal (h : F.IsStored) (finite : x.isFinite = true) :
    F.IsNearest (number x.decimal.1 x.decimal.2) x.magnitude := by
  rw [decimal]
  rcases Nat.eq_zero_or_pos x.magnitude with zero | positive
  · rw [if_pos zero, zero, number, Nat.cast_zero, zero_mul, ← F.value_zero]
    exact F.isNearest_value 0
  · rw [if_neg positive.ne']
    exact (Decimal.shortest_spec h positive (isFinite_iff.1 finite)).1

theorem decimal_eq_zero (h : F.IsStored) (finite : x.isFinite = true) (zero : x.decimal.1 = 0) : x.decimal.2 = 0 := by
  have near := isNearest_decimal h finite
  rw [zero, number, Nat.cast_zero, zero_mul, ← F.value_zero] at near
  rw [decimal, if_pos (near.unique (F.isNearest_value 0))]

/-- A finite number is the one nearest to the decimal that it is written as. -/
theorem ofDecimal_plain (h : F.IsStored) (finite : x.isFinite = true) :
    ofDecimal F x.negative (Decimal.plain x.decimal.1 x.decimal.2).1 (Decimal.plain x.decimal.1 x.decimal.2).2 = x := by
  have near := isNearest_decimal h finite
  rw [← Decimal.number_plain] at near
  rw [ofDecimal, Decimal.nearestDecimal_eq h (isFinite_iff.1 finite) near, ofMagnitude_magnitude]

/-- **A finite number is read from its text**, its sign included. -/
theorem floating?_chars (h : F.IsStored) (finite : x.isFinite = true) : Decimal.floating? F x.chars = some x := by
  have zero := decimal_eq_zero h finite
  obtain ⟨c, tail, text, digit⟩ := Decimal.exists_positional_eq_cons zero
  rw [chars_of_isFinite finite, text, Decimal.floating?_signed _ digit, ← text, Decimal.unsigned?_positional zero,
    Option.map_some, ofDecimal_plain h finite]

/-- A single-precision number is written as some double-precision number is. -/
theorem exists_double {x : Single} (finite : x.isFinite = true) :
    ∃ y : Double, y.isFinite = true ∧ y.negative = x.negative ∧ y.decimal = x.decimal := by
  obtain ⟨f, near⟩ := Decimal.exists_isNearest (F := .double) (.inr rfl) x.decimal.1 x.decimal.2
  have below := FloatFormat.double.infinity_lt_signBit
  have finite' := isFinite_iff.1 finite
  rcases Nat.eq_zero_or_pos x.magnitude with zero | positive
  · refine ⟨ofMagnitude .double x.negative 0, isFinite_iff.2 ?_, negative_ofMagnitude _ (by decide), ?_⟩
    · rw [magnitude_ofMagnitude _ (by decide)]
      decide
    · rw [decimal, magnitude_ofMagnitude _ (by decide), if_pos rfl, decimal, if_pos zero]
  · have spelt : x.decimal = Decimal.shortest .single x.magnitude := if_neg positive.ne'
    have near' := isNearest_decimal (.inl rfl) finite
    obtain ⟨positive', finite''⟩ := Decimal.range_of_single positive finite' near' near
    have magnitude := magnitude_ofMagnitude (F := .double) x.negative (finite''.trans below)
    refine ⟨ofMagnitude .double x.negative f, isFinite_iff.2 (by rwa [magnitude]),
      negative_ofMagnitude _ (finite''.trans below), ?_⟩
    rw [spelt] at near ⊢
    rw [decimal, magnitude, if_neg positive'.ne', Decimal.shortest_double positive finite' near]

end Floating

end AssetRecords
