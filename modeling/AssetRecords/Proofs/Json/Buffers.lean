import AssetRecords.Proofs.Json.Documents
import AssetRecords.Proofs.Json.Narrowing
import AssetRecords.Proofs.Json.Short
/-!
# Buffers — arrays of numbers of no type

A JSON array does not tell the element type of the buffer that it was written from; the narrowest type is taken that
holds what the texts of all elements are read as.  If these are told by their texts, then the buffer that is read has the
same text (`read_buffer_of_render`), with one exception: whole numbers of both signs for which the signed integers are
too narrow (`Stranded`).
-/
namespace AssetRecords
namespace Json

open Decimal (whole)
open Number (ofWhole toInt?_ofWhole ofWhole_natural)

variable {number : List Char → Option Number}

/-!
## The type of numbers
-/

/-- Numbers whose texts are those of whole numbers, one of them negative and one past the signed integers: no integer
type holds both, and without a fraction among them no floating-point type is considered. -/
structure Stranded (ss : List Scalar) : Prop where
  whole : ∀ s ∈ ss, ∃ i, s.chars = whole i ∧ -0x8000000000000000 ≤ i ∧ i < 0x10000000000000000
  negative : ∃ s ∈ ss, ∃ i, s.chars = Decimal.whole i ∧ -0x8000000000000000 ≤ i ∧ i < 0
  large : ∃ s ∈ ss, ∃ i, s.chars = Decimal.whole i ∧ 0x8000000000000000 ≤ i ∧ i < 0x10000000000000000

section Types

variable {ss : List Scalar} {e : Extent}

/-- **The type that is chosen keeps the texts of all numbers.** -/
theorem keeps_of_type {type t : ScalarType} (uniform : ∀ s ∈ ss, s.type = type) (finite : ∀ s ∈ ss, s.isFinite = true)
    (told : ∀ s ∈ ss, Tells number s) (measures : e.Measures (ss.map (numeral number))) (chosen : e.type = .ok t) :
    ∀ s ∈ ss, Keeps (numeral number s) s t := by
  intro s hs
  have read := (told s hs).numeral.2
  have listed : numeral number s ∈ ss.map (numeral number) := List.mem_map_of_mem hs
  by_cases float : e.isFloat = true
  · rw [Extent.type, if_pos float] at chosen
    -- a number that is read as a double comes from a floating-point type, and all of them are of one type
    obtain ⟨x, hx⟩ := measures.isFloat.1 float
    obtain ⟨s', hs', hx⟩ := List.mem_map.1 hx
    have floating : s.type.isFloating = true := by
      rw [uniform s hs, ← uniform s' hs']
      exact (hx ▸ (told s' hs').numeral.2).of_float
    split at chosen
    · cases chosen
      exact keeps_float64 read floating (finite s hs)
    · rename_i fits
      cases chosen
      exact keeps_float32 read (Bool.eq_false_iff.2 fun needs => fits (measures.needsDouble _ listed needs))
  · generalize numeral number s = n at read listed ⊢
    cases read with
    | double y => exact absurd (measures.isFloat.2 ⟨y, listed⟩) float
    | whole i low high text =>
      obtain ⟨integer, holds⟩ := measures.inRange_of_type (Bool.eq_false_iff.2 float) chosen
      exact keeps_integer integer low high text (holds i low high listed)

/-- Scalars whose texts are those of whole numbers are read as these. -/
theorem exists_wholes (words : ReadsWords number)
    (h : ∀ s ∈ ss, ∃ i, s.chars = whole i ∧ -0x8000000000000000 ≤ i ∧ i < 0x10000000000000000) :
    ∃ is : List Int, ss.map (numeral number) = is.map ofWhole ∧
      ∀ i, i ∈ is ↔ (-0x8000000000000000 ≤ i ∧ i < 0x10000000000000000) ∧ ∃ s ∈ ss, s.chars = whole i := by
  obtain ⟨is, each⟩ := exists_forall₂ h
  have same : ss.map (numeral number) = is.map ofWhole := by
    rw [← List.forall₂_eq_eq_eq, List.forall₂_map_left_iff, List.forall₂_map_right_iff]
    exact each.imp fun _ _ told => (numeral_eq_ofWhole words told.1 told.2.1 told.2.2).2
  have within : ∀ i ∈ is, (-0x8000000000000000 ≤ i ∧ i < 0x10000000000000000) ∧ ∃ s ∈ ss, s.chars = whole i := by
    intro i hi
    obtain ⟨s, hs, text, word⟩ := exists_of_mem_forall₂ each hi
    exact ⟨word, s, hs, text⟩
  refine ⟨is, same, fun i => ⟨within i, ?_⟩⟩
  rintro ⟨word, s, hs, text⟩
  have listed : ofWhole i ∈ is.map ofWhole :=
    same ▸ List.mem_map.2 ⟨s, hs, (numeral_eq_ofWhole words text word.1 word.2).2⟩
  exact toInt_of_mem_wholes (fun i hi => (within i hi).1) listed (toInt?_ofWhole word.1 word.2)

/-- Stranded numbers have no type, and the greatest of them is blamed for it. -/
theorem type_of_stranded (words : ReadsWords number) (measures : e.Measures (ss.map (numeral number))) (h : Stranded ss) :
    ∃ n : UInt64, e.type = .error (.numericRange (.uint n) .int64) ∧ (∃ s ∈ ss, s.chars = whole n.toNat) ∧
      ∀ s ∈ ss, ∃ i ≤ (n.toNat : Int), s.chars = whole i := by
  obtain ⟨is, same, listed⟩ := exists_wholes words h.whole
  have within : ∀ i ∈ is, -0x8000000000000000 ≤ i ∧ i < 0x10000000000000000 := fun i hi => ((listed i).1 hi).1
  obtain ⟨s, hs, i, text, low, negative⟩ := h.negative
  obtain ⟨s', hs', i', text', large, high⟩ := h.large
  obtain ⟨m, hm, past, greatest, failed⟩ := (same ▸ measures).type_stranded within
    ⟨i, (listed i).2 ⟨⟨low, by omega⟩, s, hs, text⟩, negative⟩
    ⟨i', (listed i').2 ⟨⟨by omega, high⟩, s', hs', text'⟩, by omega⟩
  obtain ⟨n, blamed, number⟩ := ofWhole_natural (by omega) (within m hm).2
  refine ⟨n, blamed ▸ failed, number ▸ ((listed m).1 hm).2, fun s hs => ?_⟩
  obtain ⟨i, text, word⟩ := h.whole s hs
  exact ⟨i, number ▸ greatest i ((listed i).2 ⟨word, s, hs, text⟩), text⟩

/-- No other numbers are without a type. -/
theorem stranded_of_type (words : ReadsWords number) (told : ∀ s ∈ ss, Tells number s)
    (measures : e.Measures (ss.map (numeral number))) {err : Error} (h : e.type = .error err) : Stranded ss := by
  have integral : ¬ e.isFloat = true := by
    intro float
    rw [Extent.type, if_pos float] at h
    split at h <;> cases h
  have texts : ∀ s ∈ ss, ∃ i, s.chars = whole i ∧ -0x8000000000000000 ≤ i ∧ i < 0x10000000000000000 := by
    intro s hs
    have read := (told s hs).numeral.2
    have listed : numeral number s ∈ ss.map (numeral number) := List.mem_map_of_mem hs
    generalize numeral number s = n at read listed
    cases read with
    | double y => exact absurd (measures.isFloat.2 ⟨y, listed⟩) integral
    | whole i low high text => exact ⟨i, text, low, high⟩
  obtain ⟨is, same, listed⟩ := exists_wholes words texts
  rw [same] at measures
  have within : ∀ i ∈ is, -0x8000000000000000 ≤ i ∧ i < 0x10000000000000000 := fun i hi => ((listed i).1 hi).1
  have negative : ∃ i ∈ is, i < 0 := by
    by_contra none
    push Not at none
    obtain ⟨t, chosen, -⟩ := measures.type_natural within none
    cases h.symm.trans chosen
  have large : ∃ i ∈ is, 0x7fffffffffffffff < i := by
    by_contra none
    push Not at none
    obtain ⟨t, chosen, -⟩ := measures.type_signed within negative none
    cases h.symm.trans chosen
  obtain ⟨i, hi, negative⟩ := negative
  obtain ⟨i', hi', large⟩ := large
  obtain ⟨⟨low, -⟩, s, hs, text⟩ := (listed i).1 hi
  obtain ⟨⟨-, high⟩, s', hs', text'⟩ := (listed i').1 hi'
  exact ⟨texts, ⟨s, hs, i, text, low, negative⟩, ⟨s', hs', i', text', by omega, high⟩⟩

end Types

/-!
## Reading buffers
-/

section Reading

variable {S : Schema} {L : Limits} {layout : Layout} {b : Buffer} {t : String} {parse : List Char → Option Json}

/-- A text of a buffer is read as what its elements are read as, each for itself, stored in one type. -/
theorem readWith_numbers (conforms : Conforms parse number) (spaced : layout.Spaced)
    (written : render layout (.buffer b) = .ok t) (few : b.length ≤ L.maxElements)
    (numerals : ∀ s ∈ b.scalars, IsNumeral number s) : readWith parse S L .buffer t = Value.buffer <$>
      (((b.scalars.map (numeral number)).foldl Extent.add {}).type >>= fun type =>
        Buffer.ofNumbers type (b.scalars.map (numeral number))) := by
  have numbers : (b.scalars.map fun s => Json.number (numeral number s)).mapM toNumber =
      .ok (b.scalars.map (numeral number)) := by
    refine Except.mapM_eq_ok_of_forall₂ ?_
    rw [List.forall₂_map_left_iff, List.forall₂_map_right_iff]
    exact List.forall₂_same.2 fun _ _ => rfl
  have counted : L.checkCount (b.scalars.map fun s => Json.number (numeral number s)).length = .ok () := by
    rw [Limits.checkCount_eq_ok_iff, List.length_map, Buffer.scalars, List.length_map, b.length_elements]
    exact few
  have low : nesting (.buffer b) ≤ maxNesting := by
    rw [nesting, levels]
    decide
  rw [readWith, conforms.parse_of_render spaced written (numeric_of_parts rfl numerals) low, tree]
  show decodeInto S L (L.maxDepth + 1) (.buffer {}) _ = _
  rw [decodeInto, counted]
  show Value.buffer <$> toBuffer _ = _
  rw [toBuffer, elementType, numbers]
  rfl

/-- Stranded numbers are read, and the greatest of them is refused. -/
theorem readWith_stranded (conforms : Conforms parse number) (spaced : layout.Spaced)
    (written : render layout (.buffer b) = .ok t) (few : b.length ≤ L.maxElements) (stranded : Stranded b.scalars) :
    ∃ n : UInt64, readWith parse S L .buffer t = .error (.numericRange (.uint n) .int64) ∧
      (∃ s ∈ b.scalars, s.chars = whole n.toNat) ∧ ∀ s ∈ b.scalars, ∃ i ≤ (n.toNat : Int), s.chars = whole i := by
  have numerals : ∀ s ∈ b.scalars, IsNumeral number s := fun s hs => by
    obtain ⟨i, text, low, high⟩ := stranded.whole s hs
    exact (numeral_eq_ofWhole conforms.words text low high).1
  have measures := measures_foldl (b.scalars.map (numeral number))
  obtain ⟨n, blamed, greatest⟩ := type_of_stranded conforms.words measures stranded
  rw [readWith_numbers conforms spaced written few numerals]
  exact ⟨n, by rw [blamed]; rfl, greatest⟩

/-- Numbers that their texts tell and that are not stranded are read as numbers with the same texts. -/
theorem readWith_told (conforms : Conforms parse number) (spaced : layout.Spaced)
    (written : render layout (.buffer b) = .ok t) (few : b.length ≤ ({} : Limits).maxElements)
    (told : ∀ s ∈ b.scalars, Tells number s) (fine : ¬ Stranded b.scalars) :
    ∃ b' : Buffer, readWith parse S {} .buffer t = .ok (.buffer b') ∧ b'.length = b.length ∧
      render layout (.buffer b') = .ok t := by
  obtain ⟨finite, text⟩ := gives_numbers_iff.1 (render_eq_ok_iff.1 written)
  have measures := measures_foldl (b.scalars.map (numeral number))
  have uniform : ∀ s ∈ b.scalars, s.type = b.type := by
    intro s hs
    obtain ⟨bits, -, rfl⟩ := List.mem_map.1 hs
    rfl
  have length : b.scalars.length = b.length := by rw [Buffer.scalars, List.length_map, b.length_elements]
  rw [readWith_numbers conforms spaced written few fun s hs => (told s hs).numeral.1]
  cases chosen : ((b.scalars.map (numeral number)).foldl Extent.add {}).type with
  | error err => exact absurd (stranded_of_type conforms.words told measures chosen) fine
  | ok type =>
    obtain ⟨elements, each⟩ := exists_forall₂ (keeps_of_type uniform finite told measures chosen)
    have granted : (b.scalars.map (numeral number)).length * type.size ≤ Buffer.memoryLimit := by
      have : type.size ≤ 8 := by cases type <;> decide
      rw [List.length_map, length]
      exact Nat.le_trans (Nat.mul_le_mul few this) (by decide)
    obtain ⟨b', had, length', scalars⟩ := Buffer.exists_ofNumbers
      (List.forall₂_map_left_iff.2 (each.imp fun _ _ kept => kept.1)) (Buffer.granted_of_le granted)
    refine ⟨b', ?_, ?_, render_eq_ok_iff.2 (gives_numbers_iff.2 ⟨?_, ?_⟩)⟩
    · show Value.buffer <$> Buffer.ofNumbers type _ = _
      rw [had]
      rfl
    · rw [length', List.length_map, length]
    · rw [scalars]
      intro s hs
      obtain ⟨bits, hbits, rfl⟩ := List.mem_map.1 hs
      obtain ⟨s, -, kept⟩ := exists_of_mem_forall₂ each hbits
      exact kept.2.1
    · have same : b'.scalars.map Scalar.chars = b.scalars.map Scalar.chars := by
        rw [scalars, List.map_map, ← List.forall₂_eq_eq_eq, List.forall₂_map_left_iff, List.forall₂_map_right_iff]
        exact each.flip.imp fun _ _ kept => kept.2.2
      rw [same]
      exact text

/-- **JSON reads every buffer that it writes, unless its numbers are stranded**: then the greatest of them is refused.
The buffer that is read may be of another type, but it is as long and has the same text.  That is so with every parser
that conforms, if the numbers of the buffer are told by their texts: those that are whole numbers of 64 bits always are,
where decimals are rounded once every number is, and with the reader of this library the short ones are. -/
theorem read_buffer_of_render (conforms : Conforms parse number) (spaced : layout.Spaced)
    (few : b.length ≤ ({} : Limits).maxElements) (written : render layout (.buffer b) = .ok t) :
    (Stranded b.scalars → ∃ n : UInt64, readWith parse S {} .buffer t = .error (.numericRange (.uint n) .int64) ∧
      (∃ s ∈ b.scalars, s.chars = whole n.toNat) ∧ ∀ s ∈ b.scalars, ∃ i ≤ (n.toNat : Int), s.chars = whole i) ∧
    (¬ Stranded b.scalars → (∀ s ∈ b.scalars, Tells number s) →
      ∃ b' : Buffer, readWith parse S {} .buffer t = .ok (.buffer b') ∧ b'.length = b.length ∧
        render layout (.buffer b') = .ok t) ∧
    (∀ s ∈ b.scalars, b.type.isFloating = false ∨
      (∃ i, s.chars = whole i ∧ -0x8000000000000000 ≤ i ∧ i < 0x10000000000000000) ∨ RoundsToNearest number ∨
        number = readNumber? ∧ IsShort s.chars → Tells number s) := by
  refine ⟨readWith_stranded conforms spaced written few,
    fun fine told => readWith_told conforms spaced written few told fine, fun s hs => ?_⟩
  have finite : s.isFinite = true := (gives_numbers_iff.1 (render_eq_ok_iff.1 written)).1 s hs
  rintro (integers | ⟨i, text, low, high⟩ | rounds | ⟨rfl, short⟩)
  · obtain ⟨bits, -, rfl⟩ := List.mem_map.1 hs
    obtain ⟨i, text, ⟨low, high⟩, -⟩ := Scalar.chars_eq_whole ⟨b.type, bits⟩ integers
    exact conforms.words.tells text low high
  · exact conforms.words.tells text low high
  · exact rounds.tells finite
  · exact tells_of_isShort finite short

end Reading

/-- A short fraction and a whole number, which singles hold as well. -/
def readings : Buffer := .ofList .float64 [0x3fb999999999999a#64, 0x4008000000000000#64]

theorem read_buffer_of_render_readings : ∃ b', render {} (.buffer readings) = .ok "[0.1, 3]" ∧
    read {} {} .buffer "[0.1, 3]" = .ok (.buffer b') ∧ b'.length = readings.length ∧
      render {} (.buffer b') = .ok "[0.1, 3]" := by
  have accepted : (write {} 0 (.buffer readings)).refusal = none := by decide +kernel
  have written : render {} (.buffer readings) = .ok "[0.1, 3]" :=
    (render_of_refusal_none accepted).trans (by decide +kernel)
  have unsigned : readings.scalars.all (fun s => s.chars.head? != some '-') = true := by decide +kernel
  have fine : ¬ Stranded readings.scalars := by
    intro stranded
    obtain ⟨s, hs, i, text, -, negative⟩ := stranded.negative
    have := List.all_eq_true.1 unsigned s hs
    rw [text, whole, if_pos negative] at this
    cases this
  obtain ⟨-, back, told⟩ :=
    read_buffer_of_render (S := {}) conforms_parse? (by decide) (by decide) written
  have short : IsShort (Scalar.chars ⟨.float64, (0x3fb999999999999a#64 : BitVec 64)⟩) := by
    refine ⟨false, ['0'], ['1'], by decide +kernel, ?_, by decide, by decide⟩
    exact List.forall_mem_cons.2 ⟨rfl, List.forall_mem_singleton.2 rfl⟩
  have three : Scalar.chars ⟨.float64, (0x4008000000000000#64 : BitVec 64)⟩ = whole 3 := by decide +kernel
  obtain ⟨b', read, length, same⟩ := back fine fun s hs => told s hs <| by
    rcases List.mem_pair.1 hs with rfl | rfl
    · exact .inr (.inr (.inr ⟨rfl, short⟩))
    · exact .inr (.inl ⟨3, three, by decide, by decide⟩)
  exact ⟨b', written, read, length, same⟩

/-- Doubles that are whole numbers of both signs. -/
def wholesOfBothSigns : Buffer := .ofList .float64 [0xbff0000000000000#64, 0x43e158e460913d00#64]

theorem wholesOfBothSigns_not_read : wholesOfBothSigns.WellFormed ∧
    wholesOfBothSigns.length ≤ ({} : Limits).maxElements ∧
      render {} (.buffer wholesOfBothSigns) = .ok "[-1, 10000000000000000000]" ∧
        ∀ b', read {} {} .buffer "[-1, 10000000000000000000]" ≠ .ok (.buffer b') := by
  have accepted : (write {} 0 (.buffer wholesOfBothSigns)).refusal = none := by decide +kernel
  have written : render {} (.buffer wholesOfBothSigns) = .ok "[-1, 10000000000000000000]" :=
    (render_of_refusal_none accepted).trans (by decide +kernel)
  have refused : (read {} {} .buffer "[-1, 10000000000000000000]").isOk = false := by decide +kernel
  refine ⟨Buffer.wellFormed_ofList (by decide), by decide, written, fun b' back => ?_⟩
  rw [back] at refused
  cases refused

/-- Doubles that the reader of this library does not tell by their texts, since it rounds more than once: one loses its
last digit, and the greatest one is taken to be infinite. -/
theorem doubles_not_told :
    render {} (.buffer (.ofList .float64 [0x3fdbaf85da2e5318#64])) = .ok "[0.43258806521161963]" ∧
      (read {} {} .buffer "[0.43258806521161963]" >>= render {}) = .ok "[0.4325880652116196]" ∧
      ∃ t, render {} (.buffer (.ofList .float64 [0x7fefffffffffffff#64])) = .ok t ∧
        (read {} {} .buffer t).isOk = false := by
  refine ⟨(render_of_refusal_none (by decide +kernel)).trans (by decide +kernel),
    Except.toOption_eq_some_iff.1 (by decide +kernel), _, render_of_refusal_none (by decide +kernel), ?_⟩
  rw [read, readWith, String.toList_ofList]
  decide +kernel

end Json
end AssetRecords
