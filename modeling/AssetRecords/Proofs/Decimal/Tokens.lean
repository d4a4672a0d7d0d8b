import AssetRecords.Proofs.Decimal.Whole
/-!
# Tokens — finite doubles among the numbers of tokens

A token that is no whole number of 64 bits is read as a double, and the text of a finite double as that double
(`Number.parse?_chars`).
-/
namespace AssetRecords

namespace Decimal

theorem digits?_pointed (whole fraction : List Char) : digits? (whole ++ '.' :: fraction) = none := by
  rw [digits?, if_neg]
  simp

theorem integer?_minus_large {cs : List Char} (large : ∀ n, digits? cs = some n → 0x8000000000000000 < n) :
    integer? ('-' :: cs) = none := by
  have least : Int64.minValue.toInt = -0x8000000000000000 := by decide
  rw [integer?]
  cases digits : digits? cs with
  | none => rfl
  | some n =>
    have := large n digits
    refine if_neg fun range => ?_
    have : Int64.minValue.toInt ≤ -(n : Int) := range.1
    omega

section Unsigned

variable {c : Char} {tail : List Char}

theorem natural?_large (h : c.isDigit = true) (large : ∀ n, digits? (c :: tail) = some n → UInt64.size ≤ n) :
    natural? (c :: tail) = none := by
  rw [natural?]
  · cases digits : digits? (c :: tail) with
    | none => rfl
    | some n => exact if_neg (Nat.not_lt.2 (large n digits))
  · rintro rest ⟨⟩
    exact absurd h (by decide)

theorem integer?_large (h : c.isDigit = true) (large : ∀ n, digits? (c :: tail) = some n → UInt64.size ≤ n) :
    integer? (c :: tail) = none := by
  have size : UInt64.size = 0x10000000000000000 := rfl
  have greatest : Int64.maxValue.toInt = 0x7fffffffffffffff := by decide
  rw [integer?]
  · cases digits : digits? (c :: tail) with
    | none => rfl
    | some n =>
      have := large n digits
      refine if_neg fun range => ?_
      have : (n : Int) ≤ Int64.maxValue.toInt := range.2
      omega
  · rintro rest ⟨⟩
    exact absurd h (by decide)
  · rintro rest ⟨⟩
    exact absurd h (by decide)

end Unsigned

end Decimal

namespace Number

open Decimal (natural? integer? floating? digits? whole signed)

/-- The least number that is too large for 64 bits, with a minus sign or without. -/
def bound (negative : Bool) : ℕ := if negative then 0x8000000000000001 else UInt64.size

/-- What is no whole number of 64 bits is a decimal. -/
theorem parse?_large {negative : Bool} {c : Char} {tail : List Char} (h : c.isDigit = true)
    (large : ∀ n, digits? (c :: tail) = some n → bound negative ≤ n) : parse? (signed negative (c :: tail)) =
      (floating? .double (signed negative (c :: tail))).map .float := by
  cases negative with
  | false => rw [signed, if_neg Bool.false_ne_true, parse?, Decimal.natural?_large h large, Decimal.integer?_large h large]
  | true => rw [signed, if_pos rfl, parse?, Decimal.natural?_minus, Decimal.integer?_minus_large large]

/-- **The text of a finite double is read as the double**, if it is not that of a whole number of 64 bits. -/
theorem parse?_chars {y : Double} (finite : y.isFinite = true) : parse? y.chars = some (.float y) ∨
    ∃ i, y.chars = whole i ∧ -0x8000000000000000 ≤ i ∧ i < 0x10000000000000000 := by
  have zero := Floating.decimal_eq_zero (.inr rfl) finite
  have back := Floating.floating?_chars (.inr rfl) finite
  obtain ⟨c, tail, start, digit⟩ := Decimal.exists_positional_eq_cons zero
  have text := Floating.chars_of_isFinite finite
  by_cases large : ∀ n, digits? (c :: tail) = some n → bound y.negative ≤ n
  · left
    rw [start] at text
    rw [text, parse?_large digit large, ← text, back]
    rfl
  push Not at large
  obtain ⟨n, digits, small⟩ := large
  rw [← start] at digits
  rcases Decimal.positional_cases zero with ⟨-, natural⟩ | ⟨-, before, behind, -, -, pointed, -⟩
  · rw [natural, Decimal.digits?_toDigits] at digits
    rw [natural, Option.some.inj digits] at text
    by_cases minusZero : y.negative = true ∧ n = 0
    · -- a zero with a minus sign is a whole number of 64 bits, but it is read as a double to keep its sign
      rw [minusZero.1, minusZero.2] at text
      have same : floating? .double (signed true (Nat.toDigits 10 0)) = some (.negZero .double) := by decide +kernel
      rw [text] at back
      rw [text, Option.some.inj (back.symm.trans same)]
      exact .inl (by decide +kernel)
    · rw [text]
      refine .inr (Decimal.exists_whole (fun sign => ?_) fun sign => ?_)
      · rw [sign] at small
        exact small
      · rw [sign] at small
        exact ⟨fun none => minusZero ⟨sign, none⟩, Nat.lt_succ_iff.1 small⟩
  · rw [pointed, Decimal.digits?_pointed] at digits
    cases digits

end Number

end AssetRecords
