import AssetRecords.Scalar.Basic
/-!
# Number — the text of a stored number

Whole numbers are read from their texts whatever their width (`Scalar.parse_chars`).  For floating-point numbers that
depends on the number; of their texts only the characters are known here.
-/
namespace AssetRecords

namespace Decimal

theorem digits?_toDigits (n : Nat) : digits? (Nat.toDigits 10 n) = some n := by
  have all : (Nat.toDigits 10 n).all Char.isDigit = true :=
    List.all_eq_true.2 fun c hc => Nat.isDigit_of_mem_toDigits (by decide) (by decide) hc
  have some : (Nat.toDigits 10 n).isEmpty = false := List.isEmpty_eq_false_iff.2 Nat.toDigits_ne_nil
  rw [digits?, all, some, Nat.ofDigitChars_ten_toDigits]
  rfl

/-- The digits of a number begin with no sign. -/
theorem toDigits_eq_cons (n : Nat) : ∃ d ds, Nat.toDigits 10 n = d :: ds ∧ d ≠ '+' ∧ d ≠ '-' := by
  cases h : Nat.toDigits 10 n with
  | nil => exact absurd h Nat.toDigits_ne_nil
  | cons d ds =>
    have listed : d ∈ Nat.toDigits 10 n := h ▸ List.mem_cons_self
    have digit : d.isDigit = true := Nat.isDigit_of_mem_toDigits (by decide) (by decide) listed
    refine ⟨d, ds, rfl, ?_, ?_⟩ <;> rintro rfl <;> exact absurd digit (by decide)

/-- The digits of a number do not begin with a zero. -/
theorem head?_toDigits_ne_zero {n : Nat} (h : 0 < n) : (Nat.toDigits 10 n).head? ≠ some '0' := by
  induction n using Nat.strongRecOn with
  | ind n ih =>
    by_cases small : n < 10
    · have digits : ∀ n < 10, 0 < n → (Nat.toDigits 10 n).head? ≠ some '0' := by decide
      exact digits n small h
    · have tail := ih (n / 10) (by omega) (by omega)
      obtain ⟨d, ds, hds, -⟩ := toDigits_eq_cons (n / 10)
      rw [hds] at tail
      rw [Nat.toDigits_of_base_le (by decide) (by omega), hds]
      exact tail

theorem natural?_toDigits {n : Nat} (h : n < UInt64.size) : natural? (Nat.toDigits 10 n) = some (UInt64.ofNat n) := by
  obtain ⟨d, ds, hds, plus, -⟩ := toDigits_eq_cons n
  have number := digits?_toDigits n
  rw [hds] at number
  rw [hds, natural?]
  · rw [number]
    exact if_pos h
  · rintro rest ⟨⟩
    exact plus rfl

/-- A minus sign ends the reading of a natural number. -/
theorem natural?_minus (cs : List Char) : natural? ('-' :: cs) = none := rfl

theorem integer?_minus {n : Nat} (h : (n : Int) ≤ 0x8000000000000000) :
    integer? ('-' :: Nat.toDigits 10 n) = some (Int64.ofInt (-n)) := by
  have range : Int64.minValue.toInt ≤ -(n : Int) ∧ -(n : Int) ≤ Int64.maxValue.toInt := by
    have low : Int64.minValue.toInt = -0x8000000000000000 := by decide
    have high : Int64.maxValue.toInt = 0x7fffffffffffffff := by decide
    omega
  simp only [integer?, digits?_toDigits]
  exact if_pos range

end Decimal

namespace Number

theorem parse?_negative {i : Int} (low : -0x8000000000000000 ≤ i) (negative : i < 0) :
    parse? (Decimal.whole i) = some (.int (Int64.ofInt i)) := by
  have number : -(i.natAbs : Int) = i := by omega
  have nonzero : Int64.ofInt i ≠ 0 := by
    intro h
    have := congrArg Int64.toInt h
    rw [Int64.toInt_ofInt_of_le low (by omega)] at this
    exact absurd this (Int.ne_of_lt negative)
  rw [Decimal.whole, if_pos negative, parse?, Decimal.natural?_minus, Decimal.integer?_minus (by omega), number]
  simp only
  rw [if_neg nonzero]

theorem parse?_natural {i : Int} (low : 0 ≤ i) (high : i < 0x10000000000000000) :
    parse? (Decimal.whole i) = some (.uint (UInt64.ofNat i.natAbs)) := by
  have size : UInt64.size = 0x10000000000000000 := rfl
  rw [Decimal.whole, if_neg (Int.not_lt.2 low), parse?, Decimal.natural?_toDigits (by omega)]

section Whole

variable {i : Int}

/-- The number that a whole number is read as. -/
def ofWhole (i : Int) : Number := if i < 0 then .int (Int64.ofInt i) else .uint (UInt64.ofNat i.natAbs)

theorem toInt?_ofWhole (low : -0x8000000000000000 ≤ i) (high : i < 0x10000000000000000) :
    (ofWhole i).toInt? = some i := by
  by_cases negative : i < 0
  · rw [ofWhole, if_pos negative, toInt?, Int64.toInt_ofInt_of_le low (by omega)]
  · have small : i.natAbs < UInt64.size := by
      have : UInt64.size = 0x10000000000000000 := rfl
      omega
    have number : (i.natAbs : Int) = i := by omega
    rw [ofWhole, if_neg negative, toInt?, UInt64.toNat_ofNat', Nat.mod_eq_of_lt small, number]

theorem toFloating_ofWhole (F : FloatFormat) (low : -0x8000000000000000 ≤ i) (high : i < 0x10000000000000000) :
    (ofWhole i).toFloating F = .ofInt F i := by
  have number := toInt?_ofWhole low high
  rw [ofWhole] at number ⊢
  split at number
  · have same : (Int64.ofInt i).toInt = i := Option.some.inj number
    rw [if_pos ‹_›, toFloating, same]
  · have same : ((UInt64.ofNat i.natAbs).toNat : Int) = i := Option.some.inj number
    rw [if_neg ‹_›, toFloating, same]

theorem ofWhole_negative (low : -0x8000000000000000 ≤ i) (high : i < 0) : ∃ n, ofWhole i = .int n ∧ n.toInt = i :=
  ⟨Int64.ofInt i, if_pos high, Int64.toInt_ofInt_of_le low (by omega)⟩

theorem ofWhole_natural (low : 0 ≤ i) (high : i < 0x10000000000000000) :
    ∃ n, ofWhole i = .uint n ∧ (n.toNat : Int) = i := by
  have size : UInt64.size = 0x10000000000000000 := rfl
  refine ⟨UInt64.ofNat i.natAbs, if_neg (Int.not_lt.2 low), ?_⟩
  rw [UInt64.toNat_ofNat', Nat.mod_eq_of_lt (by omega)]
  omega

/-- **As a token, a whole number of 64 bits is read exactly.** -/
theorem parse?_whole (low : -0x8000000000000000 ≤ i) (high : i < 0x10000000000000000) :
    parse? (Decimal.whole i) = some (ofWhole i) := by
  rcases Int.lt_or_le i 0 with negative | natural
  · rw [parse?_negative low negative, ofWhole, if_pos negative]
  · rw [parse?_natural natural high, ofWhole, if_neg (Int.not_lt.2 natural)]

end Whole
end Number

namespace ScalarType

/-- The floating-point types; the others hold whole numbers. -/
def isFloating : ScalarType → Bool
  | float32 | float64 => true
  | _ => false

/-- The integer that bits stand for in an integer type. -/
def integer (t : ScalarType) (bits : t.Bits) : Int := if t.isSigned then bits.toInt else bits.toNat

section Range

variable {t : ScalarType} {i : Int}

theorem inRange_iff : t.inRange i = true ↔ t.minInt ≤ i ∧ i ≤ t.maxInt := by
  rw [inRange, Bool.and_eq_true, decide_eq_true_eq, decide_eq_true_eq]

/-- The range of an integer type with a sign is that of its bits, half of it negative. -/
theorem range_signed (h : t.isSigned = true) : 0 < t.width ∧ t.bound = Nat.pow 2 (t.width - 1) ∧
    t.bound ≤ 0x8000000000000000 ∧ t.minInt = -(t.bound : Int) := by
  have bound : t.bound = Nat.pow 2 (t.width - 1) := by rw [ScalarType.bound, if_pos h]
  have small : t.bound ≤ 0x8000000000000000 := by cases t <;> first | decide | cases h
  exact ⟨by cases t <;> decide, bound, small, if_pos h⟩

theorem range_unsigned (h : t.isSigned = false) :
    t.bound = Nat.pow 2 t.width ∧ t.bound ≤ 0x10000000000000000 ∧ t.minInt = 0 := by
  have no : ¬ t.isSigned = true := by rw [h]; decide
  have bound : t.bound = Nat.pow 2 t.width := by rw [ScalarType.bound, if_neg no]
  exact ⟨bound, by cases t <;> decide, if_neg no⟩

/-- Bits stand for an integer of the range. -/
theorem inRange_integer (bits : t.Bits) : t.inRange (t.integer bits) = true := by
  have maxInt : t.maxInt = t.bound - 1 := rfl
  rw [inRange_iff, integer]
  cases signed : t.isSigned with
  | true =>
    obtain ⟨-, bound, -, minInt⟩ := range_signed signed
    have power : (t.bound : Int) = 2 ^ (t.width - 1) := bound ▸ Int.natCast_pow 2 _
    have low := BitVec.le_toInt bits
    have high := BitVec.toInt_lt (x := bits)
    rw [if_pos rfl]
    omega
  | false =>
    obtain ⟨bound, -, minInt⟩ := range_unsigned signed
    have high : bits.toNat < t.bound := bound ▸ bits.isLt
    rw [if_neg Bool.false_ne_true]
    omega

theorem ofInt_integer (bits : t.Bits) : BitVec.ofInt t.width (t.integer bits) = bits := by
  unfold integer
  split
  · exact BitVec.ofInt_toInt
  · rw [BitVec.ofInt_natCast, BitVec.ofNat_toNat, BitVec.setWidth_eq]

/-- The bits of an integer of the range stand for it. -/
theorem integer_ofInt (range : t.inRange i = true) : t.integer (BitVec.ofInt t.width i) = i := by
  have maxInt : t.maxInt = t.bound - 1 := rfl
  obtain ⟨low, high⟩ := inRange_iff.1 range
  unfold integer
  cases signed : t.isSigned with
  | true =>
    obtain ⟨positive, bound, -, minInt⟩ := range_signed signed
    have power : (t.bound : Int) = 2 ^ (t.width - 1) := bound ▸ Int.natCast_pow 2 _
    exact BitVec.toInt_ofInt_eq_self positive (by omega) (by omega)
  | false =>
    obtain ⟨bound, -, minInt⟩ := range_unsigned signed
    have power : 2 ^ t.width = t.bound := bound.symm
    rw [if_neg Bool.false_ne_true, BitVec.toNat_ofInt, power, Int.emod_eq_of_lt (by omega) (by omega)]
    omega

/-- An integer of any range has 64 bits, with a sign or without. -/
theorem bounds_of_inRange (range : t.inRange i = true) : -0x8000000000000000 ≤ i ∧ i < 0x10000000000000000 := by
  have maxInt : t.maxInt = t.bound - 1 := rfl
  obtain ⟨low, high⟩ := inRange_iff.1 range
  cases signed : t.isSigned with
  | true =>
    obtain ⟨-, -, small, minInt⟩ := range_signed signed
    omega
  | false =>
    obtain ⟨-, small, minInt⟩ := range_unsigned signed
    omega

/-- An integer type takes the whole numbers of its range. -/
theorem narrow_of_inRange (h : t.isFloating = false) {n : Number} (hi : n.toInt? = some i)
    (range : t.inRange i = true) : t.narrow n = .ok (BitVec.ofInt t.width i) := by
  have narrow? : t.narrow? n = some (BitVec.ofInt t.width i) := by
    cases t with
    | float32 | float64 => cases h
    | _ => simp only [narrow?, hi, Option.bind_some, if_pos range]
  rw [narrow, narrow?]

end Range

end ScalarType

namespace Scalar

section Integers

variable {t : ScalarType}

theorem toNumber_signed (h : t.isSigned = true) (bits : t.Bits) :
    (⟨t, bits⟩ : Scalar).toNumber = .int (Int64.ofInt bits.toInt) := by
  cases t <;> first | rfl | cases h

theorem toNumber_unsigned (h : t.isSigned = false) (h' : t.isFloating = false) (bits : t.Bits) :
    (⟨t, bits⟩ : Scalar).toNumber = .uint (UInt64.ofNat bits.toNat) := by
  cases t <;> first | rfl | exact absurd h (by decide) | exact absurd h' (by decide)

/-- A stored integer denotes what its bits stand for. -/
theorem toInt?_toNumber (h : t.isFloating = false) (bits : t.Bits) :
    (⟨t, bits⟩ : Scalar).toNumber.toInt? = some (t.integer bits) := by
  have range := t.inRange_integer bits
  obtain ⟨low, high⟩ := ScalarType.bounds_of_inRange range
  cases signed : t.isSigned with
  | true =>
    have integer : t.integer bits = bits.toInt := if_pos signed
    obtain ⟨-, -, small, minInt⟩ := ScalarType.range_signed signed
    have maxInt : t.maxInt = t.bound - 1 := rfl
    have upper := (ScalarType.inRange_iff.1 range).2
    rw [toNumber_signed signed, Number.toInt?, ← integer, Int64.toInt_ofInt_of_le low (by omega)]
  | false =>
    have integer : t.integer bits = bits.toNat := if_neg (by rw [signed]; decide)
    rw [toNumber_unsigned signed h, Number.toInt?, UInt64.toNat_ofNat', Nat.mod_eq_of_lt (by omega), integer]

/-- The text of a stored integer is that of what its bits stand for. -/
theorem chars_integer (h : t.isFloating = false) (bits : t.Bits) :
    (⟨t, bits⟩ : Scalar).chars = Decimal.whole (t.integer bits) := by
  have number := toInt?_toNumber h bits
  have chars : (⟨t, bits⟩ : Scalar).chars = (⟨t, bits⟩ : Scalar).toNumber.chars := by
    cases t <;> first | rfl | cases h
  rw [chars]
  cases signed : t.isSigned with
  | true =>
    rw [toNumber_signed signed, Number.toInt?, Option.some.injEq] at number
    rw [toNumber_signed signed, Number.chars, number]
  | false =>
    rw [toNumber_unsigned signed h, Number.toInt?, Option.some.injEq] at number
    rw [toNumber_unsigned signed h, Number.chars, number]

/-- A stored whole number is one of its type's range, and its text is that of the number. -/
theorem chars_eq_whole (s : Scalar) (h : s.type.isFloating = false) : ∃ i, s.chars = Decimal.whole i ∧
    (-0x8000000000000000 ≤ i ∧ i < 0x10000000000000000) ∧ s.type.inRange i = true ∧
      BitVec.ofInt s.type.width i = s.bits :=
  have range := s.type.inRange_integer s.bits
  ⟨_, chars_integer h s.bits, ScalarType.bounds_of_inRange range, range, s.type.ofInt_integer s.bits⟩

/-- What is stored of a whole number in a type of its range denotes the number. -/
theorem toInt?_toNumber_ofInt (h : t.isFloating = false) {i : Int} (range : t.inRange i = true) :
    (⟨t, BitVec.ofInt t.width i⟩ : Scalar).toNumber.toInt? = some i := by
  rw [toInt?_toNumber h, ScalarType.integer_ofInt range]

/-- The text of a whole number that is stored in a type of its range. -/
theorem chars_ofInt (h : t.isFloating = false) {i : Int} (range : t.inRange i = true) :
    (⟨t, BitVec.ofInt t.width i⟩ : Scalar).chars = Decimal.whole i := by
  rw [chars_integer h, ScalarType.integer_ofInt range]

end Integers

/-- **A stored whole number is read from its text.** -/
theorem parse_chars {s : Scalar} (h : s.type.isFloating = false) : s.type.parse s.chars = .ok s.bits := by
  obtain ⟨i, chars, ⟨low, high⟩, range, bits⟩ := s.chars_eq_whole h
  rw [ScalarType.parse, chars, Number.parse?_whole low high, ← bits]
  exact ScalarType.narrow_of_inRange h (Number.toInt?_ofWhole low high) range

end Scalar

/-!
## The characters of a number
-/

namespace Decimal

/-- The characters that the text of a number is made of. -/
def isNumeral (c : Char) : Bool := c.isDigit || ['-', '.', 'N', 'a', 'i', 'n', 'f'].contains c

theorem isNumeral_of_mem_toDigits {n : Nat} {c : Char} (h : c ∈ Nat.toDigits 10 n) : isNumeral c = true := by
  have digit : c.isDigit = true := Nat.isDigit_of_mem_toDigits (by decide) (by decide) h
  rw [isNumeral, digit, Bool.true_or]

theorem isNumeral_whole (i : Int) : (whole i).all isNumeral = true ∧ whole i ≠ [] := by
  have digits := List.all_eq_true.2 fun _ hc => isNumeral_of_mem_toDigits (n := i.natAbs) hc
  unfold whole
  split
  · refine ⟨?_, List.cons_ne_nil _ _⟩
    rw [List.all_cons, digits]
    rfl
  · exact ⟨digits, Nat.toDigits_ne_nil⟩

theorem isNumeral_positional (digits : Nat) (power : Int) :
    (positional digits power).all isNumeral = true ∧ positional digits power ≠ [] := by
  have all := fun c hc => isNumeral_of_mem_toDigits (n := digits) (c := c) hc
  have zeros : ∀ n, (List.replicate n '0').all isNumeral = true := fun n =>
    List.all_eq_true.2 fun c hc => by rw [List.eq_of_mem_replicate hc]; decide
  unfold positional
  simp only
  split
  · refine ⟨?_, fun h => Nat.toDigits_ne_nil (List.append_eq_nil_iff.1 h).1⟩
    rw [List.all_append, zeros, List.all_eq_true.2 all]
    rfl
  split
  · refine ⟨?_, fun h => List.cons_ne_nil _ _ (List.append_eq_nil_iff.1 h).2⟩
    rw [List.all_append, List.all_cons, List.all_eq_true.2 fun c hc => all c (List.mem_of_mem_take hc),
      List.all_eq_true.2 fun c hc => all c (List.mem_of_mem_drop hc)]
    rfl
  · refine ⟨?_, List.cons_ne_nil _ _⟩
    rw [List.cons_append, List.cons_append, List.all_cons, List.all_cons, List.all_append, zeros,
      List.all_eq_true.2 all]
    rfl

end Decimal

theorem Floating.isNumeral_chars {F : FloatFormat} (x : Floating F) :
    x.chars.all Decimal.isNumeral = true ∧ x.chars ≠ [] := by
  unfold Floating.chars
  split
  · exact ⟨by decide, List.cons_ne_nil _ _⟩
  · have body : ∀ body : List Char, body.all Decimal.isNumeral = true ∧ body ≠ [] →
        (if x.negative then '-' :: body else body).all Decimal.isNumeral = true ∧
          (if x.negative then '-' :: body else body) ≠ [] := by
      rintro body ⟨all, some⟩
      split
      · exact ⟨by rw [List.all_cons, all]; rfl, List.cons_ne_nil _ _⟩
      · exact ⟨all, some⟩
    apply body
    split
    · exact ⟨by decide, List.cons_ne_nil _ _⟩
    split
    · exact ⟨by decide, List.cons_ne_nil _ _⟩
    · exact Decimal.isNumeral_positional _ _

/-- **The text of a number is not empty and has neither blanks nor brackets in it.** -/
theorem Scalar.isNumeral_chars (s : Scalar) : s.chars.all Decimal.isNumeral = true ∧ s.chars ≠ [] := by
  cases h : s.type.isFloating with
  | false =>
    obtain ⟨i, chars, -⟩ := s.chars_eq_whole h
    rw [chars]
    exact Decimal.isNumeral_whole i
  | true =>
    obtain ⟨type, bits⟩ := s
    cases type with
    | float32 | float64 => exact Floating.isNumeral_chars _
    | _ => cases h

theorem Decimal.toNat_lt_of_isNumeral {c : Char} (h : isNumeral c = true) : c.toNat < 128 := by
  rcases Bool.or_eq_true_iff.1 h with digit | letter
  · exact Nat.lt_of_le_of_lt (Char.isDigit_iff_toNat.1 digit).2 (by decide)
  · have ascii : ['-', '.', 'N', 'a', 'i', 'n', 'f'].all (·.toNat < 128) = true := by decide
    exact of_decide_eq_true (List.all_eq_true.1 ascii c (List.contains_iff_mem.1 letter))

end AssetRecords
