import AssetRecords.Proofs.Json.Numerals
/-!
# Short — fractions that lose nothing

The reader of this library rounds more than once.  That is not seen of a fraction whose digits make up a double and of
which few are behind the point: it is the quotient of its digits and a power of ten that is a double, too, and only the
quotient is rounded (`approximate_eq`).  So such a text is read as the number that it is the text of
(`tells_of_isShort`).
-/
namespace AssetRecords
namespace Json

open Decimal (Pointed signed)
open FloatFormat (double)

/-!
## Spelling
-/

/-- A number keeps growing with each digit. -/
theorem le_ofDigitChars : ∀ (cs : List Char) (n : ℕ), n ≤ Nat.ofDigitChars 10 cs n
  | [], n => Nat.le_refl n
  | c :: cs, n => by
    have := le_ofDigitChars cs (10 * n + (c.toNat - '0'.toNat))
    show n ≤ Nat.ofDigitChars 10 cs (10 * n + (c.toNat - '0'.toNat))
    omega

/-- No digit is left of a number that fits. -/
theorem gather_eq : ∀ {cs : List Char} {n : ℕ}, Nat.ofDigitChars 10 cs n < UInt64.size →
    gather n cs = (Nat.ofDigitChars 10 cs n, 0)
  | [], _, _ => rfl
  | c :: cs, n, h => by
    have more : 10 * n + (c.toNat - '0'.toNat) < UInt64.size := Nat.lt_of_le_of_lt (le_ofDigitChars cs _) h
    rw [gather]
    simp only [if_pos more]
    exact gather_eq h

/-- A fraction is its digits and how many of them are behind the point. -/
theorem decimal_fraction (negative : Bool) {whole fraction : List Char}
    (small : Nat.ofDigitChars 10 (whole ++ fraction) 0 < UInt64.size) :
    (⟨negative, whole, fraction, none⟩ : Literal).decimal =
      (Nat.ofDigitChars 10 (whole ++ fraction) 0, -(fraction.length : ℤ)) := by
  have together : Nat.ofDigitChars 10 (whole ++ fraction) 0 =
      Nat.ofDigitChars 10 fraction (Nat.ofDigitChars 10 whole 0) := List.foldl_append
  rw [together] at small ⊢
  have before := gather_eq (Nat.lt_of_le_of_lt (le_ofDigitChars fraction _) small)
  unfold Literal.decimal
  simp only [before, gather_eq small]
  simp

/-- A fraction is read as a double. -/
theorem readNumber?_pointed (negative : Bool) {d n : ℕ} {whole fraction : List Char}
    (pointed : Pointed d n whole fraction) (hn : 0 < n) (small : d < UInt64.size)
    (finite : (Floating.ofMagnitude .double negative (approximate d (-n))).isFinite = true) :
    readNumber? (signed negative (whole ++ '.' :: fraction)) =
      some (.float (.ofMagnitude .double negative (approximate d (-n)))) := by
  obtain ⟨before, behind⟩ := isWhole_of_pointed pointed hn
  obtain ⟨sign, hsign, text, minus⟩ : ∃ sign, (sign = [] ∨ sign = ['-']) ∧
      (∀ cs, signed negative cs = sign ++ cs) ∧ (sign == ['-']) = negative := by
    cases negative with
    | false => exact ⟨[], .inl rfl, fun _ => rfl, rfl⟩
    | true => exact ⟨['-'], .inr rfl, fun _ => rfl, rfl⟩
  obtain ⟨power, parts, none⟩ := literal?_of_isNumber hsign before (.point behind) .none
  obtain rfl := none rfl
  rw [List.append_nil, ← text, minus] at parts
  have some : fraction.isEmpty = false := by rw [List.isEmpty_eq_false_iff]; exact behind.some
  have decimal := decimal_fraction negative (pointed.number ▸ small)
  rw [pointed.number, pointed.length] at decimal
  rw [readNumber?, parts, Option.bind_some]
  unfold Literal.number?
  simp only [List.drop_succ_cons, List.drop_zero, some, Bool.false_and, decimal]
  exact if_pos finite

/-!
## Values
-/

theorem tenTo_spec : ∀ n ≤ 22, tenTo n < double.infinity ∧ 0 < double.significand (tenTo n) ∧
    (scaleByPowerOfTwo (double.significand (tenTo n)) 1 (double.exponent (tenTo n))).1 =
      Nat.pow 10 n * (scaleByPowerOfTwo (double.significand (tenTo n)) 1 (double.exponent (tenTo n))).2 := by
  decide +kernel

/-- A power of ten that is a double. -/
theorem value_tenTo {n : ℕ} (few : n ≤ 22) : double.value (tenTo n) = 10 ^ n := by
  obtain ⟨positive, value⟩ := double.scaled_spec (tenTo n)
  rw [← value, (tenTo_spec n few).2.2, Nat.cast_mul, mul_div_cancel_right₀]
  · exact Nat.cast_pow 10 n
  · exact_mod_cast positive.ne'

/-- **Only the quotient is rounded** if the digits and the power of ten are doubles. -/
theorem approximate_eq {d n m : ℕ} (hd : 0 < d) (small : d < 2 * double.leadingBit) (hn : 0 < n) (few : n ≤ 22)
    (finite : m < double.infinity) (near : double.IsNearest (Decimal.number d (-n)) m) : approximate d (-n) = m := by
  obtain ⟨k, -, hk, value, -⟩ := Decimal.exists_value (.inr rfl) hd small
  have digits := Decimal.nearest_of_value (.inr rfl) hk value
  have quotient : double.value k / double.value (tenTo n) = Decimal.number d (-n) := by
    rw [value, value_tenTo few, Decimal.number, zpow_neg, zpow_natCast, div_eq_mul_inv]
  have once : ((- -(n : ℤ)).toNat - 1) / maxPower = 0 := Nat.div_eq_of_lt (by unfold maxPower; omega)
  unfold approximate
  simp only [digits, once]
  rw [if_neg (by omega), if_neg (by omega), reduce, Nat.mul_zero, Nat.sub_zero, Int.neg_neg, Int.toNat_natCast,
    FloatFormat.quotient_eq_iff (by decide) (tenTo_spec n few).2.1 finite, quotient]
  exact near

/-!
## Texts
-/

/-- A text with a point: its digits make up less than 2^53, and at most 22 of them are behind the point. -/
def IsShort (cs : List Char) : Prop :=
  ∃ negative whole fraction, cs = signed negative (whole ++ '.' :: fraction) ∧
    (∀ c ∈ whole ++ fraction, c.isDigit = true) ∧ Nat.ofDigitChars 10 (whole ++ fraction) 0 < Nat.pow 2 53 ∧
      fraction.length ≤ 22

section Points

variable {negative negative' : Bool} {whole whole' fraction fraction' : List Char}

theorem digitsAt_point (h : ∀ c ∈ whole ++ fraction, c.isDigit = true) :
    digitsAt (whole ++ '.' :: fraction) = (whole, '.' :: fraction) :=
  digitsAt_append (fun c hc => h c (List.mem_append_left _ hc)) (by rintro _ ⟨⟩; decide)

theorem head?_point (h : ∀ c ∈ whole ++ fraction, c.isDigit = true) : (whole ++ '.' :: fraction).head? ≠ some '-' := by
  cases whole with
  | nil => nofun
  | cons c tail =>
    rintro ⟨⟩
    exact absurd (h '-' List.mem_cons_self) (by decide)

/-- The parts of a text with a point are its own. -/
theorem signed_point_inj (h : ∀ c ∈ whole ++ fraction, c.isDigit = true)
    (h' : ∀ c ∈ whole' ++ fraction', c.isDigit = true)
    (same : signed negative (whole ++ '.' :: fraction) = signed negative' (whole' ++ '.' :: fraction')) :
    negative = negative' ∧ whole = whole' ∧ fraction = fraction' := by
  have parts (same : whole ++ '.' :: fraction = whole' ++ '.' :: fraction') : whole = whole' ∧ fraction = fraction' := by
    have split := digitsAt_point h
    rw [same, digitsAt_point h'] at split
    obtain ⟨rfl, behind⟩ := Prod.mk.inj split
    exact ⟨rfl, (List.cons.inj behind).2.symm⟩
  cases negative with
  | false =>
    cases negative' with
    | false => exact ⟨rfl, parts same⟩
    | true => exact absurd (congrArg List.head? same) (head?_point h)
  | true =>
    cases negative' with
    | false => exact absurd (congrArg List.head? same).symm (head?_point h')
    | true => exact ⟨rfl, parts (List.cons.inj same).2⟩

theorem point_mem_signed_iff {cs : List Char} : '.' ∈ signed negative cs ↔ '.' ∈ cs := by
  cases negative with
  | false => exact Iff.rfl
  | true => exact List.mem_cons.trans (or_iff_right (by decide))

end Points

/-- **A short text is read as the number that it is the text of.** -/
theorem tells_of_isShort {s : Scalar} (finite : s.isFinite = true) (short : IsShort s.chars) : Tells readNumber? s := by
  cases floating : s.type.isFloating with
  | false =>
    obtain ⟨i, text, ⟨low, high⟩, -⟩ := s.chars_eq_whole floating
    exact readsWords_readNumber?.tells text low high
  | true =>
    obtain ⟨y, finite', text⟩ := exists_double_chars floating finite
    obtain ⟨negative, whole, fraction, spelled, digits, small, few⟩ := short
    have canonical := Floating.decimal_eq_zero (.inr rfl) finite'
    rw [← text, Floating.chars_of_isFinite finite'] at spelled
    rcases Decimal.positional_cases canonical with ⟨-, natural⟩ | ⟨n, whole', fraction', hn, power, point, pointed⟩
    · -- digits alone have no point
      have point : '.' ∈ signed negative (whole ++ '.' :: fraction) :=
        point_mem_signed_iff.2 (List.mem_append_right _ List.mem_cons_self)
      rw [← spelled, natural, point_mem_signed_iff] at point
      exact absurd ((digits_toDigits _).all '.' point) (by decide)
    · rw [point] at spelled
      obtain ⟨-, rfl, rfl⟩ := signed_point_inj pointed.digits digits spelled
      rw [pointed.number] at small
      rw [pointed.length] at few
      have positive : 0 < y.decimal.1 := Nat.pos_of_ne_zero fun zero => by
        have := canonical zero
        omega
      have near := Floating.isNearest_decimal (.inr rfl) finite'
      rw [power] at near
      have read := approximate_eq positive small hn few (Floating.isFinite_iff.1 finite') near
      have back := Floating.ofMagnitude_magnitude y
      refine ⟨.float y, ?_, .double y finite' text floating⟩
      rw [← text, Floating.chars_of_isFinite finite', point, readNumber?_pointed y.negative pointed hn, read, back]
      · exact Nat.lt_trans small (by decide)
      · rwa [read, back]

end Json
end AssetRecords
