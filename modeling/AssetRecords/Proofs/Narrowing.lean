import AssetRecords.Proofs.FloatingPoint.Integers
import AssetRecords.Proofs.Number
import Mathlib.Algebra.Order.Floor.Ring
import Mathlib.Data.Rat.Floor
/-!
# Narrowing — an integer type takes the integers of its range

A number denotes an integer or none (`Number.Denotes`), and an integer type takes it exactly if it denotes one of the
type's range, whose bits are then stored (`narrow?_eq_some_iff`).  A double may be cut to 128 bits on its way, as long
as it is compared with what it became: it is stored then and only then when it is stored by its value
(`narrowCut?_eq`).  So the bits of a whole number that is read from a text stand for the number that the text spells.
-/
namespace AssetRecords

/-!
## Doubles by way of 128 bits
-/

namespace Floating

variable {F : FloatFormat} {x y : Floating F} {i : ℤ}

/-- The whole part of a number, toward zero. -/
def truncate (x : Floating F) : ℤ := if x.negative then ⌈x.value⌉ else ⌊x.value⌋

/-- The integer of 128 bits that is nearest to the whole part of a number.  A NaN becomes zero. -/
def toInt128 (x : Floating F) : ℤ :=
  if x.isNaN then 0
  else if x.isInfinite then if x.negative then -2 ^ 127 else 2 ^ 127 - 1
  else max (-2 ^ 127) (min (2 ^ 127 - 1) x.truncate)

theorem toInt128_of_isFinite (finite : x.isFinite = true) :
    x.toInt128 = max (-2 ^ 127) (min (2 ^ 127 - 1) x.truncate) := by
  obtain ⟨number, limited⟩ := isNaN_of_isFinite finite
  simp only [toInt128, number, limited, Bool.false_eq_true, if_false]

/-- Finite numbers are compared by their values. -/
theorem sameNumber_iff (hx : x.isFinite = true) (hy : y.isFinite = true) :
    x.sameNumber y = true ↔ x.value = y.value := by
  simp only [sameNumber, (isNaN_of_isFinite hx).1, (isNaN_of_isFinite hy).1, Bool.not_false, Bool.true_and,
    Bool.or_eq_true, Bool.and_eq_true, beq_iff_eq]
  constructor
  · rintro (same | ⟨zero, zero'⟩)
    · obtain ⟨bits⟩ := x
      obtain rfl : bits = y.bits := same
      rfl
    · rw [value, value, zero, zero', FloatFormat.value_zero, neg_zero, ite_self, ite_self]
  · intro same
    have injective := F.value_strictMono.injective
    have size : x.magnitude = y.magnitude := injective (by rw [← abs_value, ← abs_value, same])
    by_cases sign : x.negative = y.negative
    · left
      rw [← ofMagnitude_magnitude x, ← ofMagnitude_magnitude y, sign, size]
    · -- only zero is the same with the other sign
      right
      have zero : F.value y.magnitude = 0 := by
        rw [value, value, Bool.eq_not_of_ne sign, size] at same
        cases negative : y.negative with
        | true =>
          rw [negative] at same
          exact self_eq_neg.1 same
        | false =>
          rw [negative] at same
          exact self_eq_neg.1 same.symm
      have none : y.magnitude = 0 := injective (zero.trans F.value_zero.symm)
      exact ⟨size.trans none, none⟩

theorem truncate_of_value (number : x.value = i) : x.truncate = i := by
  rw [truncate, number, Int.ceil_intCast, Int.floor_intCast, ite_self]

theorem natAbs_truncate_le (x : Floating F) : (x.truncate.natAbs : ℚ) ≤ F.value x.magnitude := by
  have nonneg := F.value_nonneg x.magnitude
  have natural : 0 ≤ ⌊F.value x.magnitude⌋ := Int.floor_nonneg.2 nonneg
  have size : x.truncate.natAbs = ⌊F.value x.magnitude⌋.natAbs := by
    rw [truncate, value]
    split
    · rw [Int.ceil_neg, Int.natAbs_neg]
    · rfl
  rw [size, Nat.cast_natAbs, abs_of_nonneg natural]
  exact Int.floor_le _

/-- A number that is not whole has less than one place in front of the point for each bit of a significand. -/
theorem truncate_le_of_fraction (fraction : ∀ i : ℤ, x.value ≠ i) : x.truncate.natAbs ≤ 2 * F.leadingBit := by
  have small : F.exponent x.magnitude < 0 := by
    by_contra large
    obtain ⟨n, hn⟩ := Int.eq_ofNat_of_zero_le (not_lt.1 large)
    have whole : F.value x.magnitude = ((F.significand x.magnitude * 2 ^ n : ℕ) : ℤ) := by
      rw [FloatFormat.value, hn]
      push_cast
      rfl
    by_cases sign : x.negative = true
    · exact fraction (-((F.significand x.magnitude * 2 ^ n : ℕ) : ℤ)) (by rw [value, if_pos sign, whole, Int.cast_neg])
    · exact fraction _ (by rw [value, if_neg sign, whole])
  have unit : (2 : ℚ) ^ F.exponent x.magnitude ≤ 1 := zpow_le_one_of_nonpos₀ one_le_two small.le
  have below : F.value x.magnitude ≤ F.significand x.magnitude := by
    rw [FloatFormat.value]
    exact mul_le_of_le_one_right (Nat.cast_nonneg _) unit
  have : (x.truncate.natAbs : ℚ) ≤ F.significand x.magnitude := (natAbs_truncate_le x).trans below
  exact (Nat.cast_le.1 this).trans (F.significand_lt x.magnitude).le

/-- A finite number is compared as the same with what it became in 128 bits if it is whole and has room there. -/
theorem sameNumber_ofInt_of_value {x : Double} (finite : x.isFinite = true) (number : x.value = i) :
    (ofInt .double i).sameNumber x = true := by
  have denoted : (ofInt .double i).toInt? = some i :=
    (toInt?_ofInt_iff (by decide)).2 ⟨x, toInt?_eq_some_iff.2 ⟨finite, number⟩⟩
  obtain ⟨finite', number'⟩ := toInt?_eq_some_iff.1 denoted
  exact (sameNumber_iff finite' finite).2 (number'.trans number.symm)

/-- A number with a fraction is not the same as what it became in 128 bits. -/
theorem sameNumber_toInt128_of_fraction {x : Double} (finite : x.isFinite = true) (fraction : ∀ i : ℤ, x.value ≠ i) :
    (ofInt .double x.toInt128).sameNumber x = false := by
  have few := truncate_le_of_fraction fraction
  have bits : FloatFormat.double.leadingBit = 2 ^ 52 := rfl
  have kept : x.toInt128 = x.truncate := by
    rw [toInt128_of_isFinite finite]
    omega
  -- so few places are kept by a double
  have denoted : (ofInt .double x.truncate).toInt? = some x.truncate :=
    (toInt?_ofInt_iff (by decide)).2 (exists_toInt? (.inr rfl) few)
  obtain ⟨finite', number⟩ := toInt?_eq_some_iff.1 denoted
  rw [kept, Bool.eq_false_iff]
  intro same
  exact fraction x.truncate (((sameNumber_iff finite' finite).1 same).symm.trans number)

end Floating

/-!
## What an integer type takes
-/

namespace Number

/-- A number denotes an integer as a word, or as a finite double of that value; both zeros denote zero. -/
inductive Denotes : Number → ℤ → Prop where
  | int (k : Int64) : Denotes (.int k) k.toInt
  | uint (k : UInt64) : Denotes (.uint k) k.toNat
  | float {x : Double} {i : ℤ} : x.isFinite = true → x.value = i → Denotes (.float x) i

theorem toInt?_eq_some_iff {n : Number} {i : ℤ} : n.toInt? = some i ↔ n.Denotes i := by
  cases n with
  | int k =>
    rw [toInt?, Option.some.injEq]
    exact ⟨fun h => h ▸ .int k, fun h => by cases h; rfl⟩
  | uint k =>
    rw [toInt?, Option.some.injEq]
    exact ⟨fun h => h ▸ .uint k, fun h => by cases h; rfl⟩
  | float x =>
    rw [toInt?, Floating.toInt?_eq_some_iff]
    exact ⟨fun h => .float h.1 h.2, fun h => by cases h with | float finite number => exact ⟨finite, number⟩⟩

theorem Denotes.unique {n : Number} {i j : ℤ} (h : n.Denotes i) (h' : n.Denotes j) : i = j :=
  Option.some.inj ((toInt?_eq_some_iff.2 h).symm.trans (toInt?_eq_some_iff.2 h'))

end Number

namespace ScalarType

variable {t : ScalarType} {i : ℤ} {n : Number} {bits : t.Bits}

/-- The bits of an integer, if it is one of the type's range. -/
def bitsOfInt? (t : ScalarType) (i : ℤ) : Option t.Bits := if t.inRange i then some (BitVec.ofInt t.width i) else none

theorem bitsOfInt?_eq_some_iff : t.bitsOfInt? i = some bits ↔ t.inRange i = true ∧ t.integer bits = i := by
  unfold bitsOfInt?
  by_cases range : t.inRange i = true
  · rw [if_pos range, Option.some.injEq, and_iff_right range]
    constructor
    · rintro rfl
      exact integer_ofInt range
    · rintro rfl
      exact ofInt_integer bits
  · rw [if_neg range]
    exact ⟨nofun, fun h => absurd h.1 range⟩

theorem bitsOfInt?_eq_none_iff : t.bitsOfInt? i = none ↔ i < t.minInt ∨ t.maxInt < i := by
  unfold bitsOfInt?
  rw [← not_le, ← not_le, ← not_and_or, ← inRange_iff]
  split
  · exact ⟨nofun, fun h => absurd ‹_› h⟩
  · exact ⟨fun _ => ‹_›, fun _ => rfl⟩

theorem narrow?_eq_bind (h : t.isFloating = false) (n : Number) : t.narrow? n = n.toInt?.bind t.bitsOfInt? := by
  cases t <;> first | rfl | cases h

/-- **An integer type takes exactly the integers of its range**, by bits that stand for them. -/
theorem narrow?_eq_some_iff (h : t.isFloating = false) : t.narrow? n = some bits ↔
    ∃ i, n.Denotes i ∧ t.minInt ≤ i ∧ i ≤ t.maxInt ∧ t.integer bits = i := by
  rw [narrow?_eq_bind h, Option.bind_eq_some_iff]
  refine exists_congr fun i => ?_
  rw [Number.toInt?_eq_some_iff, bitsOfInt?_eq_some_iff, inRange_iff, and_assoc]

theorem narrow?_eq_none_iff (h : t.isFloating = false) :
    t.narrow? n = none ↔ ∀ i, n.Denotes i → i < t.minInt ∨ t.maxInt < i := by
  rw [narrow?_eq_bind h, Option.bind_eq_none_iff]
  exact forall_congr' fun i => by rw [Number.toInt?_eq_some_iff, bitsOfInt?_eq_none_iff]

/-- A double that is not whole is not taken. -/
theorem narrow?_of_not_whole (h : t.isFloating = false) {x : Double}
    (other : x.isFinite = false ∨ ∀ i : ℤ, x.value ≠ i) : t.narrow? (.float x) = none := by
  rw [narrow?_eq_none_iff h]
  rintro i (_ | _ | ⟨finite, number⟩)
  rcases other with infinite | fraction
  · exact absurd finite (by rw [infinite]; decide)
  · exact absurd number (fraction i)

/-- What an integer type stores of a number, where a double is cut to 128 bits and compared with what it became. -/
def narrowCut? (t : ScalarType) : Number → Option t.Bits
  | .int k => t.bitsOfInt? k.toInt
  | .uint k => t.bitsOfInt? k.toNat
  | .float x =>
    if x.isFinite && (Floating.ofInt .double x.toInt128).sameNumber x then t.bitsOfInt? x.toInt128 else none

/-- No integer type takes what has no room within 128 bits, the ends of their range not counted. -/
theorem bitsOfInt?_eq_none (far : i ≤ -2 ^ 127 ∨ 2 ^ 127 - 1 ≤ i) : t.bitsOfInt? i = none := by
  refine if_neg fun range => ?_
  obtain ⟨low, high⟩ := bounds_of_inRange range
  omega

/-- A whole number is stored by way of 128 bits as it is stored by its value. -/
theorem bitsOfInt?_toInt128 {x : Double} (finite : x.isFinite = true) (number : x.value = i) :
    (if (Floating.ofInt .double x.toInt128).sameNumber x then t.bitsOfInt? x.toInt128 else none) = t.bitsOfInt? i := by
  have cut := Floating.toInt128_of_isFinite finite
  rw [Floating.truncate_of_value number] at cut
  by_cases room : -2 ^ 127 ≤ i ∧ i ≤ 2 ^ 127 - 1
  · have kept : x.toInt128 = i := by omega
    rw [kept, if_pos (Floating.sameNumber_ofInt_of_value finite number)]
  · -- the end of the range that the number is cut to is taken as little as the number itself
    have far : t.bitsOfInt? x.toInt128 = none := bitsOfInt?_eq_none (by omega)
    rw [far, ite_self, bitsOfInt?_eq_none (by omega)]

/-- **The way by 128 bits loses nothing.** -/
theorem narrowCut?_eq (h : t.isFloating = false) (n : Number) : t.narrowCut? n = t.narrow? n := by
  rw [narrow?_eq_bind h]
  cases n with
  | int k => rfl
  | uint k => rfl
  | float x =>
    have none_of (other : ∀ i : ℤ, ¬ (x.isFinite = true ∧ x.value = i)) : x.toInt? = none :=
      Option.eq_none_iff_forall_ne_some.2 fun i denoted => other i (Floating.toInt?_eq_some_iff.1 denoted)
    rw [narrowCut?, Number.toInt?]
    by_cases finite : x.isFinite = true
    · rw [finite, Bool.true_and]
      by_cases whole : ∃ i : ℤ, x.value = i
      · obtain ⟨i, number⟩ := whole
        rw [bitsOfInt?_toInt128 finite number, Floating.toInt?_eq_some_iff.2 ⟨finite, number⟩, Option.bind_some]
      · have fraction : ∀ i : ℤ, x.value ≠ i := fun i number => whole ⟨i, number⟩
        rw [Floating.sameNumber_toInt128_of_fraction finite fraction, none_of fun i denoted => fraction i denoted.2]
        rfl
    · rw [Bool.eq_false_iff.2 finite, none_of fun i denoted => finite denoted.1]
      rfl

end ScalarType

/-!
## Texts of integers
-/

namespace Decimal

/-- Decimal digits, of which there is at least one, and the number that they spell. -/
def DigitsOf (cs : List Char) (n : ℕ) : Prop := cs ≠ [] ∧ (∀ c ∈ cs, c.isDigit = true) ∧ Nat.ofDigitChars 10 cs 0 = n

/-- The integer that a text spells in decimal digits, with or without a sign in front. -/
inductive Spells : List Char → ℤ → Prop where
  | plain {cs : List Char} {n : ℕ} : DigitsOf cs n → Spells cs n
  | plus {cs : List Char} {n : ℕ} : DigitsOf cs n → Spells ('+' :: cs) n
  | minus {cs : List Char} {n : ℕ} : DigitsOf cs n → Spells ('-' :: cs) (-n)

variable {cs : List Char}

theorem digits?_eq_some_iff {n : ℕ} : digits? cs = some n ↔ DigitsOf cs n := by
  unfold digits? DigitsOf
  by_cases all : (!cs.isEmpty && cs.all Char.isDigit) = true
  · obtain ⟨some, digits⟩ := Bool.and_eq_true_iff.1 all
    have filled : cs ≠ [] := by simpa using some
    rw [if_pos all, Option.some.injEq]
    exact ⟨fun h => ⟨filled, List.all_eq_true.1 digits, h⟩, fun h => h.2.2⟩
  · rw [if_neg all]
    refine ⟨nofun, fun h => absurd (Bool.and_eq_true_iff.2 ⟨?_, List.all_eq_true.2 h.2.1⟩) all⟩
    simpa using h.1

theorem spells_of_natural? {u : UInt64} (h : natural? cs = some u) : Spells cs u.toNat := by
  obtain ⟨n, digits, h⟩ := Option.bind_eq_some_iff.1 h
  by_cases small : n < UInt64.size
  · rw [if_pos small] at h
    cases h
    rw [UInt64.toNat_ofNat', Nat.mod_eq_of_lt small]
    split at digits
    · exact .plus (digits?_eq_some_iff.1 digits)
    · exact .plain (digits?_eq_some_iff.1 digits)
  · rw [if_neg small] at h
    cases h

theorem toInt_of_word {i : ℤ} {k : Int64}
    (h : (if Int64.minValue.toInt ≤ i ∧ i ≤ Int64.maxValue.toInt then some (Int64.ofInt i) else none) = some k) :
    k.toInt = i := by
  have greatest : Int64.maxValue.toInt = 0x7fffffffffffffff := by decide
  split at h
  · cases h
    exact Int64.toInt_ofInt_of_le (by tauto) (by omega)
  · cases h

theorem spells_of_integer? {k : Int64} (h : integer? cs = some k) : Spells cs k.toInt := by
  unfold integer? at h
  simp only at h
  split at h
  · obtain ⟨i, signed, h⟩ := Option.bind_eq_some_iff.1 h
    obtain ⟨_, size, rfl⟩ := Option.map_eq_some_iff.1 signed
    obtain ⟨n, digits, ⟨⟩⟩ := Option.bind_eq_some_iff.1 size
    rw [toInt_of_word h]
    exact .minus (digits?_eq_some_iff.1 digits)
  · obtain ⟨i, signed, h⟩ := Option.bind_eq_some_iff.1 h
    obtain ⟨n, digits, rfl⟩ := Option.map_eq_some_iff.1 signed
    rw [toInt_of_word h]
    exact .plus (digits?_eq_some_iff.1 digits)
  · obtain ⟨i, signed, h⟩ := Option.bind_eq_some_iff.1 h
    obtain ⟨n, digits, rfl⟩ := Option.map_eq_some_iff.1 signed
    rw [toInt_of_word h]
    exact .plain (digits?_eq_some_iff.1 digits)

/-- A token that is read as a word, with a sign or without, is read as a number that denotes what the token spells. -/
theorem exists_denotes_of_parse? (word : (natural? cs).isSome ∨ (integer? cs).isSome) :
    ∃ n i, Number.parse? cs = some n ∧ n.Denotes i ∧ Spells cs i := by
  unfold Number.parse?
  cases natural : natural? cs with
  | some u => exact ⟨_, _, rfl, .uint u, spells_of_natural? natural⟩
  | none =>
    obtain ⟨k, integer⟩ := Option.isSome_iff_exists.1 (word.resolve_left (by rw [natural]; nofun))
    have spelled := spells_of_integer? integer
    simp only [integer]
    by_cases zero : k = 0
    · -- a zero with a sign is kept as a double
      have denoted : (Number.float (.negZero .double)).toInt? = some 0 := by decide +kernel
      rw [if_pos zero]
      refine ⟨_, 0, rfl, Number.toInt?_eq_some_iff.1 denoted, ?_⟩
      rw [zero] at spelled
      exact spelled
    · rw [if_neg zero]
      exact ⟨_, _, rfl, .int k, spelled⟩

end Decimal

namespace ScalarType

variable {t : ScalarType}

/-- **Narrowing a number into an integer type is exact.**  A number is taken exactly if it denotes an integer of the
type's range, and the bits stand for that integer; no infinity, no NaN and no double with a fraction is taken.  A double
that goes by way of 128 bits and is compared with what it became is taken as exactly.  A token that spells an integer of
64 bits is stored as that integer, or it is refused and the integer is out of range. -/
theorem narrow_exact (h : t.isFloating = false) :
    (∀ n bits, t.narrow? n = some bits ↔ ∃ i, n.Denotes i ∧ t.minInt ≤ i ∧ i ≤ t.maxInt ∧ t.integer bits = i) ∧
    (∀ n, t.narrow? n = none ↔ ∀ i, n.Denotes i → i < t.minInt ∨ t.maxInt < i) ∧
    (∀ x : Double, (x.isFinite = false ∨ ∀ i : ℤ, x.value ≠ i) → t.narrow? (.float x) = none) ∧
    (∀ n, t.narrowCut? n = t.narrow? n) ∧
    ∀ cs, (Decimal.natural? cs).isSome ∨ (Decimal.integer? cs).isSome → ∃ i, Decimal.Spells cs i ∧
      ((t.minInt ≤ i ∧ i ≤ t.maxInt ∧ ∃ bits, t.parse cs = .ok bits ∧ t.integer bits = i) ∨
        ((i < t.minInt ∨ t.maxInt < i) ∧ ∃ n, n.Denotes i ∧ t.parse cs = .error (.numericRange n t))) := by
  refine ⟨fun _ _ => narrow?_eq_some_iff h, fun _ => narrow?_eq_none_iff h, fun _ => narrow?_of_not_whole h,
    narrowCut?_eq h, fun cs word => ?_⟩
  obtain ⟨n, i, read, denoted, spelled⟩ := Decimal.exists_denotes_of_parse? word
  refine ⟨i, spelled, ?_⟩
  rw [parse, read]
  simp only [narrow]
  cases taken : t.narrow? n with
  | some bits =>
    obtain ⟨j, denoted', low, high, rfl⟩ := (narrow?_eq_some_iff h).1 taken
    obtain rfl := denoted.unique denoted'
    exact .inl ⟨low, high, bits, rfl, rfl⟩
  | none => exact .inr ⟨(narrow?_eq_none_iff h).1 taken i denoted, n, denoted, rfl⟩

/-- The least integer of 64 bits as a double, a double that 128 bits with a sign are too few for, and the token of the
greatest word. -/
theorem narrow_exact_int64 :
    isFloating .int64 = false ∧
    (∃ i, (Number.float (.ofInt .double (-0x8000000000000000))).Denotes i ∧ minInt .int64 ≤ i ∧ i ≤ maxInt .int64 ∧
      integer .int64 0x8000000000000000#64 = i) ∧
    narrowCut? .int64 (.float (.ofInt .double (2 ^ 127))) = none ∧
    ∃ i, Decimal.Spells "18446744073709551615".toList i ∧
      ((minInt .int64 ≤ i ∧ i ≤ maxInt .int64 ∧ ∃ bits, parse .int64 "18446744073709551615".toList = .ok bits ∧
          integer .int64 bits = i) ∨
        ((i < minInt .int64 ∨ maxInt .int64 < i) ∧ ∃ n, n.Denotes i ∧
          parse .int64 "18446744073709551615".toList = .error (.numericRange n .int64))) := by
  have integral : isFloating .int64 = false := rfl
  obtain ⟨taken, -, -, cut, texts⟩ := narrow_exact integral
  have least : narrow? .int64 (.float (.ofInt .double (-0x8000000000000000))) = some 0x8000000000000000#64 := rfl
  have refused : narrow? .int64 (.float (.ofInt .double (2 ^ 127))) = none := by decide +kernel
  exact ⟨integral, (taken _ _).1 least, (cut _).trans refused, texts _ (.inl (by decide +kernel))⟩

end ScalarType
end AssetRecords
