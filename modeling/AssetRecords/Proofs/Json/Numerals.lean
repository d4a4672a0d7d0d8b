import AssetRecords.Json.Narrowing
import AssetRecords.Proofs.Decimal.Tokens
import AssetRecords.Proofs.Json.Texts
/-!
# Numerals — numbers by way of their texts

The text of a finite number is a number of the grammar (`isNumber_chars`).  It may be read as a whole number of 64 bits,
if it is the text of one, or as a double that has the same text (`Tells`): so whatever rounds to the nearest double reads
it (`RoundsToNearest.tells`).  A type that the number is then stored in keeps the text (`Keeps`) if it holds the whole
number or, as a floating-point type, is not too narrow for the double.
-/
namespace AssetRecords
namespace Json

open Decimal (Pointed whole signed)
open Number (ofWhole toInt?_ofWhole toFloating_ofWhole)

variable {number : List Char → Option Number}

/-!
## Spelling
-/

/-- A number of a floating-point type has the text of a double. -/
theorem exists_double_chars {s : Scalar} (floating : s.type.isFloating = true) (finite : s.isFinite = true) :
    ∃ y : Double, y.isFinite = true ∧ y.chars = s.chars := by
  obtain ⟨type, bits⟩ := s
  cases type with
  | float32 =>
    obtain ⟨y, finite', negative, decimal⟩ := Floating.exists_double finite
    refine ⟨y, finite', ?_⟩
    show y.chars = Floating.chars (⟨bits⟩ : Single)
    rw [Floating.chars_of_isFinite finite', Floating.chars_of_isFinite finite, negative, decimal]
  | float64 => exact ⟨⟨bits⟩, finite, rfl⟩
  | _ => cases floating

/-- The digits before a point are a whole number, and there are some behind it. -/
theorem isWhole_of_pointed {d n : ℕ} {whole fraction : List Char} (pointed : Pointed d n whole fraction) (hn : 0 < n) :
    IsWhole whole ∧ Digits fraction := by
  refine ⟨⟨⟨?_, fun c hc => pointed.digits c (List.mem_append_left _ hc)⟩, fun zero => ?_⟩,
    fun empty => ?_, fun c hc => pointed.digits c (List.mem_append_right _ hc)⟩
  · obtain ⟨c, tail, rfl, -⟩ := pointed.exists_eq_cons
    exact List.cons_ne_nil _ _
  · exact pointed.first.resolve_right fun other => other.2 zero
  · have length := pointed.length
    rw [empty, List.length_nil] at length
    omega

theorem isNumber_signed (negative : Bool) {d : Nat} {p : Int} (h : d = 0 → p = 0) :
    IsNumber (Decimal.signed negative (Decimal.positional d p)) := by
  obtain ⟨sign, hsign, text⟩ : ∃ sign, (sign = [] ∨ sign = ['-']) ∧
      ∀ cs, Decimal.signed negative cs = sign ++ cs := by
    cases negative with
    | false => exact ⟨[], .inl rfl, fun _ => rfl⟩
    | true => exact ⟨['-'], .inr rfl, fun _ => rfl⟩
  rw [text]
  rcases Decimal.positional_cases h with ⟨-, digits⟩ | ⟨n, whole, fraction, positive, -, point, pointed⟩
  · rw [digits]
    exact .whole hsign (isWhole_toDigits _)
  · obtain ⟨before, behind⟩ := isWhole_of_pointed pointed positive
    have number := IsNumber.parts hsign before (.point behind) .none
    rw [List.append_nil] at number
    rwa [point]

/-- **The text of a finite number is a number.** -/
theorem isNumber_chars {s : Scalar} (finite : s.isFinite = true) : IsNumber s.chars := by
  cases floating : s.type.isFloating with
  | false =>
    obtain ⟨i, text, -⟩ := s.chars_eq_whole floating
    rw [text]
    exact isNumber_whole i
  | true =>
    obtain ⟨y, finite', text⟩ := exists_double_chars floating finite
    rw [← text, Floating.chars_of_isFinite finite']
    exact isNumber_signed _ (Floating.decimal_eq_zero (.inr rfl) finite')

/-!
## Reading
-/

/-- What the text of a stored number is read as: the whole number that it is the text of, or a double that has it. -/
inductive ReadAs (s : Scalar) : Number → Prop where
  | whole (i : Int) (low : -0x8000000000000000 ≤ i) (high : i < 0x10000000000000000) (text : s.chars = whole i) :
    ReadAs s (ofWhole i)
  | double (y : Double) (finite : y.isFinite = true) (text : y.chars = s.chars) (floating : s.type.isFloating = true) :
    ReadAs s (.float y)

theorem ReadAs.of_float {s : Scalar} {x : Double} (h : ReadAs s (.float x)) : s.type.isFloating = true := by
  generalize hn : Number.float x = number at h
  cases h with
  | double y _ _ floating => exact floating
  | whole i =>
    unfold ofWhole at hn
    split at hn <;> cases hn

/-- A number is read as the number that its text is the text of. -/
def Tells (number : List Char → Option Number) (s : Scalar) : Prop := ∃ n, number s.chars = some n ∧ ReadAs s n

theorem Tells.numeral {s : Scalar} (h : Tells number s) : IsNumeral number s ∧ ReadAs s (numeral number s) := by
  obtain ⟨n, read, told⟩ := h
  obtain ⟨taken, same⟩ := isNumeral_of_eq_some read
  exact ⟨taken, same ▸ told⟩

theorem ReadsWords.tells (words : ReadsWords number) {s : Scalar} {i : Int} (text : s.chars = whole i)
    (low : -0x8000000000000000 ≤ i) (high : i < 0x10000000000000000) : Tells number s :=
  ⟨ofWhole i, text ▸ words i low high, .whole i low high text⟩

/-- **Every finite number is told by its text**, if decimals are rounded once. -/
theorem RoundsToNearest.tells (rounds : RoundsToNearest number) {s : Scalar} (finite : s.isFinite = true) :
    Tells number s := by
  cases floating : s.type.isFloating with
  | false =>
    obtain ⟨i, text, ⟨low, high⟩, -⟩ := s.chars_eq_whole floating
    exact rounds.readsWords.tells text low high
  | true =>
    obtain ⟨y, finite', text⟩ := exists_double_chars floating finite
    rcases Number.parse?_chars finite' with read | ⟨i, whole, low, high⟩
    · refine ⟨.float y, ?_, .double y finite' text floating⟩
      rw [rounds _ (isNumber_chars finite), roundNumber?, ← text, read, Option.filter_some]
      exact if_pos finite'
    · exact rounds.readsWords.tells (text ▸ whole) low high

/-- Where decimals are rounded once, every reader reads the same. -/
theorem RoundsToNearest.numeral_eq (rounds : RoundsToNearest number) {s : Scalar} (finite : s.isFinite = true) :
    numeral number s = numeral roundNumber? s := by
  rw [numeral, numeral, rounds _ (isNumber_chars finite)]

theorem roundsToNearest_roundNumber? : RoundsToNearest roundNumber? := fun _ _ => rfl

/-- A token is read as the number that a reader of JSON rounds to the nearest double. -/
theorem parse?_chars {s : Scalar} (finite : s.isFinite = true) :
    Number.parse? s.chars = some (numeral roundNumber? s) := by
  have read := (roundsToNearest_roundNumber?.tells finite).numeral.1
  rw [IsNumeral, roundNumber?, Option.filter_eq_some_iff] at read
  exact read.1

/-!
## Storing
-/

/-- Stored in a type, the number that a text is read as has the same text again. -/
def Keeps (n : Number) (s : Scalar) (t : ScalarType) : Prop :=
  ∃ bits : t.Bits, t.narrow n = .ok bits ∧ (⟨t, bits⟩ : Scalar).isFinite = true ∧
    (⟨t, bits⟩ : Scalar).chars = s.chars

variable {n : Number} {s : Scalar}

theorem keeps_integer {t : ScalarType} (h : t.isFloating = false) {i : Int} (low : -0x8000000000000000 ≤ i)
    (high : i < 0x10000000000000000) (text : s.chars = whole i) (range : t.inRange i = true) :
    Keeps (ofWhole i) s t := by
  refine ⟨_, ScalarType.narrow_of_inRange h (toInt?_ofWhole low high) range, ?_, ?_⟩
  · cases t with
    | float32 | float64 => cases h
    | _ => rfl
  · rw [Scalar.chars_ofInt h range, text]

theorem narrow_float64_ofWhole {i : Int} (low : -0x8000000000000000 ≤ i) (high : i < 0x10000000000000000) :
    ScalarType.float64.narrow (ofWhole i) = .ok (Floating.ofInt .double i).bits := by
  rw [← toFloating_ofWhole _ low high]
  unfold ofWhole
  split <;> rfl

theorem narrow_float32_ofWhole {i : Int} (low : -0x8000000000000000 ≤ i) (high : i < 0x10000000000000000) :
    ScalarType.float32.narrow (ofWhole i) = .ok (Floating.ofInt .single i).bits := by
  rw [← toFloating_ofWhole _ low high]
  unfold ofWhole
  split <;> rfl

theorem narrow_float32_float {y : Double} (finite : (y.convert .single).isFinite = true) :
    ScalarType.float32.narrow (.float y) = .ok (y.convert .single).bits := by
  have narrow? : ScalarType.float32.narrow? (.float y) = some (y.convert .single).bits := by
    rw [ScalarType.narrow?, Number.toFloating, finite, Bool.not_true, Bool.and_false]
    rfl
  rw [ScalarType.narrow, narrow?]

/-- A double has room for every number of a floating-point type. -/
theorem keeps_float64 (read : ReadAs s n) (floating : s.type.isFloating = true) (finite : s.isFinite = true) :
    Keeps n s .float64 := by
  cases read with
  | whole i low high text =>
    obtain ⟨y, finite', text'⟩ := exists_double_chars floating finite
    refine ⟨y.bits, ?_, finite', text'⟩
    rw [narrow_float64_ofWhole low high, Decimal.ofInt_eq_of_chars (.inr rfl) finite' (text'.trans text)]
  | double y finite' text => exact ⟨y.bits, rfl, finite', text⟩

/-- The greatest double that is not told to be too large for 32 bits. -/
theorem value_exactInSingle :
    FloatFormat.double.value (Floating.ofInt .double exactInSingle).magnitude = 2 ^ 24 ∧
      ∃ k < FloatFormat.single.infinity, FloatFormat.single.value k = 2 ^ 24 := by
  have pattern : (Floating.ofInt .double exactInSingle).magnitude =
      1046 * FloatFormat.double.leadingBit + FloatFormat.double.leadingBit := by decide +kernel
  have double := FloatFormat.double.value_place (k := 1046) (by omega) (.inr le_rfl)
  have single := FloatFormat.single.value_place (k := 150) (by omega) (.inr le_rfl)
  have exponents : FloatFormat.double.minExponent + (1046 : ℕ) = -28 ∧
      FloatFormat.single.minExponent + (150 : ℕ) = 1 := by decide
  rw [exponents.1, FloatFormat.leadingBit_eq] at double
  rw [exponents.2, FloatFormat.leadingBit_eq] at single
  rw [pattern]
  exact ⟨double.trans (by norm_num [FloatFormat.double]), _, by decide, single.trans (by norm_num [FloatFormat.single])⟩

/-- A double that is not told to be too large is finite in 32 bits, and keeps its sign. -/
theorem isFinite_convert {y : Double} (finite : y.isFinite = true)
    (small : y.magnitude ≤ (Floating.ofInt .double exactInSingle).magnitude) :
    (y.convert .single).isFinite = true ∧ (y.convert .single).negative = y.negative := by
  obtain ⟨limit, k, hk, value⟩ := value_exactInSingle
  have below := FloatFormat.double.value_strictMono.monotone small
  rw [limit, ← value] at below
  obtain ⟨m, near⟩ := FloatFormat.exists_isNearest_value (G := .single) (by decide) .double y.magnitude
  have bounded : m < FloatFormat.single.infinity := (near.le_of_le_value below).trans_lt hk
  have room := bounded.trans FloatFormat.single.infinity_lt_signBit
  rw [Floating.convert_eq (by decide) finite bounded near, Floating.isFinite_iff, Floating.magnitude_ofMagnitude _ room,
    Floating.negative_ofMagnitude _ room]
  exact ⟨bounded, rfl⟩

theorem chars_convert {y : Double} (finite : y.isFinite = true)
    (small : y.magnitude ≤ (Floating.ofInt .double exactInSingle).magnitude) (survives : survivesSingle y = true) :
    (y.convert .single).chars = y.chars := by
  obtain ⟨finite', negative⟩ := isFinite_convert finite small
  obtain ⟨back, finite'', negative', decimal⟩ := Floating.exists_double finite'
  have text : back.chars = (y.convert .single).chars := by
    rw [Floating.chars_of_isFinite finite'', Floating.chars_of_isFinite finite', negative', decimal]
  rw [survivesSingle, ← text, Floating.floating?_chars (.inr rfl) finite''] at survives
  have same : back.magnitude = y.magnitude := by
    simp only [Floating.sameNumber, Bool.and_eq_true, Bool.or_eq_true, beq_iff_eq] at survives
    rcases survives.2 with bits | zero
    · rw [Floating.magnitude, Floating.magnitude, bits]
    · rw [zero.1, zero.2]
  have decimal' : back.decimal = y.decimal := by rw [Floating.decimal, Floating.decimal, same]
  rw [← text, Floating.chars_of_isFinite finite'', Floating.chars_of_isFinite finite, negative', negative, decimal']

theorem needsDouble_ofWhole {i : Int} (low : -0x8000000000000000 ≤ i) (high : i < 0x10000000000000000) :
    needsDouble (ofWhole i) = decide (exactInSingle < i.natAbs) := by
  have number := toInt?_ofWhole low high
  rw [ofWhole] at number ⊢
  split at number
  · have same : (Int64.ofInt i).toInt = i := Option.some.inj number
    rw [if_pos ‹_›, needsDouble, same]
  · have same : ((UInt64.ofNat i.natAbs).toNat : Int) = i := Option.some.inj number
    have size : (UInt64.ofNat i.natAbs).toNat = i.natAbs := by omega
    rw [if_neg ‹_›, needsDouble, size]

/-- What is not told to need a double does not need one. -/
theorem keeps_float32 (read : ReadAs s n) (fits : needsDouble n = false) : Keeps n s .float32 := by
  cases read with
  | whole i low high text =>
    rw [needsDouble_ofWhole low high] at fits
    have small : i.natAbs ≤ exactInSingle := not_lt.1 (of_decide_eq_false fits)
    refine ⟨(Floating.ofInt .single i).bits, narrow_float32_ofWhole low high, ?_, ?_⟩
    · obtain ⟨-, k, hk, value⟩ := value_exactInSingle
      have bound : (i.natAbs : ℚ) ≤ 2 ^ 24 := by exact_mod_cast small
      exact Decimal.isFinite_ofInt (.inl rfl) hk (value ▸ bound)
    · rw [text]
      exact Decimal.chars_ofInt_single small
  | double y finite' text floating =>
    rw [needsDouble, Bool.or_eq_false_iff, Bool.not_eq_false'] at fits
    have small := not_lt.1 (of_decide_eq_false fits.1)
    obtain ⟨finite'', -⟩ := isFinite_convert finite' small
    refine ⟨(y.convert .single).bits, narrow_float32_float finite'', finite'', ?_⟩
    exact (chars_convert finite' small fits.2).trans text

end Json
end AssetRecords
