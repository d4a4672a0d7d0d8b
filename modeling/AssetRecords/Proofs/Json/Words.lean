import AssetRecords.Proofs.Json.Grammar
import AssetRecords.Proofs.Number
/-!
# Words — the numbers that are read exactly

Every text that the grammar has for a number is taken apart into sign, digits and power (`literal?_of_isNumber`), so that
nothing is refused but what is too large.  A whole number of 64 bits is read exactly (`readNumber?_whole`).
-/
namespace AssetRecords

namespace Number

/-- The numbers of trees: whole numbers of 64 bits, which have a sign only if they are negative, and finite doubles. -/
def isJson : Number → Bool
  | .int i => i.toInt < 0
  | .uint _ => true
  | .float x => x.isFinite

end Number

namespace Json

open Number (ofWhole)

/-!
## Spelling
-/

theorem digitsAt_append {ds rest : List Char} (digits : ∀ c ∈ ds, c.isDigit = true)
    (ends : ∀ c, rest.head? = some c → c.isDigit = false) : digitsAt (ds ++ rest) = (ds, rest) := by
  have behind : rest.takeWhile Char.isDigit = [] ∧ rest.dropWhile Char.isDigit = rest := by
    cases rest with
    | nil => exact ⟨rfl, rfl⟩
    | cons c rest =>
      have other : ¬ c.isDigit = true := by rw [ends c rfl]; decide
      exact ⟨List.takeWhile_cons_of_neg other, List.dropWhile_cons_of_neg other⟩
  rw [digitsAt, List.takeWhile_append_of_pos digits, List.dropWhile_append_of_pos digits, behind.1, behind.2,
    List.append_nil]

theorem whole?_append {whole rest : List Char} (h : IsWhole whole)
    (ends : ∀ c, rest.head? = some c → c.isDigit = false) : whole? (whole ++ rest) = some (whole, rest) := by
  rw [whole?, digitsAt_append h.digits.all ends]
  split
  · rename_i none
    exact absurd (congrArg Prod.fst none) h.digits.some
  · rename_i zero
    obtain ⟨rfl, -⟩ := Prod.mk.inj zero
    cases h.leading rfl
  · rfl

theorem fraction?_append {fraction rest : List Char} (h : IsFraction fraction)
    (ends : ∀ c, rest.head? = some c → c.isDigit = false ∧ c ≠ '.') :
    fraction? (fraction ++ rest) = some (fraction.drop 1, rest) := by
  cases h with
  | none =>
    rw [List.nil_append, fraction?]
    · rfl
    · rintro rest rfl
      exact (ends '.' rfl).2 rfl
  | point digits =>
    rw [List.cons_append, fraction?, digitsAt_append digits.all fun c hc => (ends c hc).1]
    exact if_neg (by rw [List.isEmpty_iff]; exact digits.some)

/-- The digits of an exponent behind its sign. -/
theorem exponent?_digits {c : Char} {sign ds : List Char} (hc : c = 'e' ∨ c = 'E')
    (hsign : sign = [] ∨ sign = ['-'] ∨ sign = ['+']) (digits : Digits ds) :
    ∃ power, exponent? (c :: (sign ++ ds)) = some (some power, []) := by
  have whole : digitsAt ds = (ds, []) := by
    have ends : ∀ c, ([] : List Char).head? = some c → c.isDigit = false := nofun
    have read := digitsAt_append digits.all ends
    rwa [List.append_nil] at read
  have some : ¬ ds.isEmpty = true := by rw [List.isEmpty_iff]; exact digits.some
  rcases hsign with rfl | rfl | rfl
  · -- without a sign the first digit is told from one
    obtain ⟨d, tail, rfl⟩ := List.exists_cons_of_ne_nil digits.some
    have digit := digits.all d List.mem_cons_self
    refine ⟨Nat.ofDigitChars 10 (d :: tail) 0, ?_⟩
    rw [List.nil_append, exponent?]
    · simp only [if_pos hc, whole]
      rw [if_neg some]
      rfl
    · rintro rest ⟨⟩
      exact absurd digit (by decide)
    · rintro rest ⟨⟩
      exact absurd digit (by decide)
  · refine ⟨-Nat.ofDigitChars 10 ds 0, ?_⟩
    rw [List.singleton_append, exponent?]
    simp only [if_pos hc, whole]
    rw [if_neg some]
    rfl
  · refine ⟨Nat.ofDigitChars 10 ds 0, ?_⟩
    rw [List.singleton_append, exponent?]
    simp only [if_pos hc, whole]
    rw [if_neg some]
    rfl

theorem IsExponent.head {exponent : List Char} (h : IsExponent exponent) :
    ∀ c, exponent.head? = some c → c.isDigit = false ∧ c ≠ '.' := by
  cases h with
  | none => nofun
  | mark hc =>
    rintro _ ⟨⟩
    rcases hc with rfl | rfl <;> decide

theorem exponent?_of_isExponent {exponent : List Char} (h : IsExponent exponent) :
    ∃ power, exponent? exponent = some (power, []) ∧ (exponent = [] → power = none) := by
  cases h with
  | none => exact ⟨none, rfl, fun _ => rfl⟩
  | mark hc hsign digits =>
    obtain ⟨power, read⟩ := exponent?_digits hc hsign digits
    exact ⟨some power, read, nofun⟩

/-- **Every number of the grammar is taken apart.** -/
theorem literal?_of_isNumber {sign whole fraction exponent : List Char} (hsign : sign = [] ∨ sign = ['-'])
    (hwhole : IsWhole whole) (hfraction : IsFraction fraction) (hexponent : IsExponent exponent) :
    ∃ power, literal? (sign ++ (whole ++ (fraction ++ exponent))) =
      some ⟨sign == ['-'], whole, fraction.drop 1, power⟩ ∧ (exponent = [] → power = none) := by
  obtain ⟨power, read, bare⟩ := exponent?_of_isExponent hexponent
  have behind : ∀ c, (fraction ++ exponent).head? = some c → c.isDigit = false := by
    cases hfraction with
    | none => exact fun c hc => (hexponent.head c hc).1
    | point =>
      rintro _ ⟨⟩
      decide
  have parts : ∀ negative, parts? negative (whole ++ (fraction ++ exponent)) =
      some ⟨negative, whole, fraction.drop 1, power⟩ := by
    intro negative
    simp only [parts?, whole?_append hwhole behind, fraction?_append hfraction hexponent.head, read,
      Option.bind_eq_bind, Option.bind_some]
    rfl
  refine ⟨power, ?_, bare⟩
  rcases hsign with rfl | rfl
  · obtain ⟨d, tail, rfl⟩ := List.exists_cons_of_ne_nil hwhole.digits.some
    have digit := hwhole.digits.all d List.mem_cons_self
    rw [List.nil_append, literal?]
    · exact parts false
    · rintro rest start
      obtain ⟨rfl, -⟩ := List.cons.inj start
      exact absurd digit (by decide)
  · exact parts true

/-!
## Whole numbers
-/

theorem digits_toDigits (n : Nat) : Digits (Nat.toDigits 10 n) :=
  ⟨Nat.toDigits_ne_nil, fun _ hc => Nat.isDigit_of_mem_toDigits (by decide) (by decide) hc⟩

theorem isWhole_toDigits (n : Nat) : IsWhole (Nat.toDigits 10 n) where
  digits := digits_toDigits n
  leading zero := by
    obtain rfl : n = 0 := Nat.eq_zero_of_not_pos fun h => Decimal.head?_toDigits_ne_zero h zero
    rfl

theorem IsNumber.whole {sign ds : List Char} (hsign : sign = [] ∨ sign = ['-']) (h : IsWhole ds) :
    IsNumber (sign ++ ds) := by
  have number := IsNumber.parts hsign h .none .none
  rwa [List.append_nil, List.append_nil] at number

theorem isNumber_whole (i : Int) : IsNumber (Decimal.whole i) := by
  unfold Decimal.whole
  split
  · exact .whole (.inr rfl) (isWhole_toDigits _)
  · exact .whole (.inl rfl) (isWhole_toDigits _)

theorem literal?_toDigits {sign : List Char} (hsign : sign = [] ∨ sign = ['-']) (n : Nat) :
    literal? (sign ++ Nat.toDigits 10 n) = some ⟨sign == ['-'], Nat.toDigits 10 n, [], none⟩ := by
  obtain ⟨power, read, none⟩ := literal?_of_isNumber hsign (isWhole_toDigits n) .none .none
  rw [none rfl, List.append_nil, List.append_nil] at read
  exact read

theorem Literal.number?_natural {n : Nat} (h : n < UInt64.size) :
    (⟨false, Nat.toDigits 10 n, [], none⟩ : Literal).number? = some (.uint (UInt64.ofNat n)) := by
  unfold Literal.number?
  simp only [Nat.ofDigitChars_ten_toDigits]
  exact if_pos (Bool.and_eq_true_iff.2 ⟨rfl, decide_eq_true h⟩)

theorem Literal.number?_negative {n : Nat} (h : n ≠ 0) (h' : (n : Int) ≤ 0x8000000000000000) :
    (⟨true, Nat.toDigits 10 n, [], none⟩ : Literal).number? = some (.int (Int64.ofInt (-n))) := by
  have least : Int64.minValue.toInt ≤ -(n : Int) := by
    have : Int64.minValue.toInt = -0x8000000000000000 := by decide
    omega
  unfold Literal.number?
  simp only [Nat.ofDigitChars_ten_toDigits]
  rw [if_neg (by simp), if_pos]
  exact Bool.and_eq_true_iff.2 ⟨Bool.and_eq_true_iff.2 ⟨rfl, decide_eq_true h⟩, decide_eq_true least⟩

/-- **A whole number of 64 bits, with or without sign, is read from its text.** -/
theorem readNumber?_whole {i : Int} (low : -0x8000000000000000 ≤ i) (high : i < 0x10000000000000000) :
    readNumber? (Decimal.whole i) = some (ofWhole i) := by
  have size : UInt64.size = 0x10000000000000000 := rfl
  rw [Decimal.whole, ofWhole]
  split
  · have number : -(i.natAbs : Int) = i := by omega
    have parts : literal? ('-' :: Nat.toDigits 10 i.natAbs) = _ := literal?_toDigits (.inr rfl) i.natAbs
    have read := Literal.number?_negative (n := i.natAbs) (by omega) (by omega)
    rw [number] at read
    rw [readNumber?, parts]
    exact read
  · have parts : literal? (Nat.toDigits 10 i.natAbs) = _ := literal?_toDigits (.inl rfl) i.natAbs
    rw [readNumber?, parts]
    exact Literal.number?_natural (by omega)

/-!
## The numbers of trees
-/

theorem Literal.isJson_of_number? {l : Literal} {n : Number} (h : l.number? = some n) : n.isJson = true := by
  unfold Literal.number? at h
  simp only at h
  generalize Nat.ofDigitChars 10 l.whole 0 = digits at h
  split at h
  · cases h
    rfl
  split at h
  · rename_i signed
    cases h
    simp only [Bool.and_eq_true, decide_eq_true_eq, ne_eq] at signed
    obtain ⟨⟨-, nonzero⟩, least⟩ := signed
    have least' : Int64.minValue.toInt = -0x8000000000000000 := by decide
    have number : (Int64.ofInt (-(digits : Int))).toInt = -digits :=
      Int64.toInt_ofInt_of_le (by omega) (by omega)
    exact decide_eq_true (by omega)
  split at h
  · rename_i finite
    cases h
    exact finite
  · cases h

/-- **No other number is read.** -/
theorem isJson_of_readNumber? {t : List Char} {n : Number} (h : readNumber? t = some n) : n.isJson = true := by
  obtain ⟨l, -, number⟩ := Option.bind_eq_some_iff.1 h
  exact l.isJson_of_number? number

end Json
end AssetRecords
