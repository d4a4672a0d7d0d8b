import AssetRecords.Proofs.Buffer
import AssetRecords.Proofs.FloatingPoint.Integers
import AssetRecords.Proofs.Json.Decoding
import AssetRecords.Proofs.Json.Numerals
import AssetRecords.Proofs.Json.Trees
/-!
# Narrowing — the element type of an array of numbers

What an array measures depends on nothing but which numbers there are (`foldl_add_congr`).  Of whole numbers alone the
narrowest type is taken that holds them all, and there is none exactly if a negative number stands beside one past the
signed integers (`elementType_narrowest`).  The type that is taken accepts every number of the array.  Beside decimals a
whole number is rounded if there is no double for it (`decodeInto_buffer_stored`).
-/
namespace AssetRecords

namespace Number

/-- The whole number that a number is given as, with neither a fraction nor an exponent. -/
def whole? : Number → Option Int
  | .int i => some i.toInt
  | .uint n => some n.toNat
  | .float _ => none

end Number

namespace Json

open Number (ofWhole toInt?_ofWhole ofWhole_negative ofWhole_natural)

/-!
## Whole numbers
-/

theorem whole?_ofWhole {i : Int} (low : -0x8000000000000000 ≤ i) (high : i < 0x10000000000000000) :
    (ofWhole i).whole? = some i ∧ (ofWhole i).isJson = true := by
  rcases Int.lt_or_le i 0 with negative | natural
  · obtain ⟨n, read, rfl⟩ := ofWhole_negative low negative
    rw [read]
    exact ⟨rfl, decide_eq_true negative⟩
  · obtain ⟨n, read, number⟩ := ofWhole_natural natural high
    rw [read, ← number]
    exact ⟨rfl, rfl⟩

theorem eq_ofWhole {n : Number} {i : Int} (told : n.isJson = true) (h : n.whole? = some i) :
    -0x8000000000000000 ≤ i ∧ i < 0x10000000000000000 ∧ n = ofWhole i := by
  cases n with
  | int k =>
    obtain rfl : k.toInt = i := Option.some.inj h
    have negative : k.toInt < 0 := of_decide_eq_true told
    refine ⟨k.le_toInt, by omega, ?_⟩
    rw [ofWhole, if_pos negative, Int64.ofInt_toInt]
  | uint u =>
    obtain rfl : (u.toNat : Int) = i := Option.some.inj h
    have high := u.toNat_lt
    refine ⟨by omega, by omega, ?_⟩
    rw [ofWhole, if_neg (by omega), Int.natAbs_natCast, UInt64.ofNat_toNat]
  | float x => cases h

/-!
## The extent of numbers
-/

/-- What an extent tells of the numbers that it was taken from. -/
structure Extent.Measures (e : Extent) (ns : List Number) : Prop where
  isFloat : e.isFloat = true ↔ ∃ x, Number.float x ∈ ns
  needsDouble : ∀ n ∈ ns, Json.needsDouble n = true → e.needsDouble = true
  smallest : e.smallest ≤ 0 ∧ ∀ i, Number.int i ∈ ns → e.smallest ≤ i.toInt
  least : e.smallest = 0 ∨ ∃ i, Number.int i ∈ ns ∧ i.toInt = e.smallest
  biggest : ∀ u, Number.uint u ∈ ns → u.toNat ≤ e.biggest
  greatest : e.biggest = 0 ∨ ∃ u, Number.uint u ∈ ns ∧ u.toNat = e.biggest

/-- One number more is measured by what is added for it. -/
theorem Extent.Measures.add {e : Extent} {ns : List Number} (h : e.Measures ns) (n : Number) :
    (e.add n).Measures (ns ++ [n]) := by
  have kept : ∀ {n'}, n' ∈ ns → n' ∈ ns ++ [n] := List.mem_append_left _
  have last : n ∈ ns ++ [n] := List.mem_append_right _ (List.mem_singleton_self n)
  have other : ∀ {n'}, n' ∈ ns ++ [n] → n' ≠ n → n' ∈ ns := fun hn' differs =>
    (List.mem_append.1 hn').resolve_right fun new => differs (List.mem_singleton.1 new)
  have wide : ∀ n' ∈ ns ++ [n], Json.needsDouble n' = true → (e.needsDouble || Json.needsDouble n) = true := by
    intro n' hn' needs
    rcases List.mem_append.1 hn' with old | new
    · rw [h.needsDouble n' old needs, Bool.true_or]
    · rw [← List.mem_singleton.1 new, needs, Bool.or_true]
  have floats : (∀ x, Number.float x ≠ n) → (e.isFloat = true ↔ ∃ x, Number.float x ∈ ns ++ [n]) := fun differs =>
    h.isFloat.trans (exists_congr fun x => ⟨kept, fun hx => other hx (differs x)⟩)
  have least : e.smallest = 0 ∨ ∃ i, Number.int i ∈ ns ++ [n] ∧ i.toInt = e.smallest :=
    h.least.imp_right fun ⟨i, hi, same⟩ => ⟨i, kept hi, same⟩
  have greatest : e.biggest = 0 ∨ ∃ u, Number.uint u ∈ ns ++ [n] ∧ u.toNat = e.biggest :=
    h.greatest.imp_right fun ⟨u, hu, same⟩ => ⟨u, kept hu, same⟩
  cases n with
  | int i =>
    refine ⟨floats nofun, wide, ⟨min_le_of_left_le h.smallest.1, fun j hj => ?_⟩, ?_,
      fun u hu => h.biggest u (other hu nofun), greatest⟩
    · by_cases new : j = i
      · exact new ▸ min_le_right _ _
      · exact min_le_of_left_le (h.smallest.2 j (other hj fun same => new (Number.int.inj same)))
    · show min e.smallest i.toInt = 0 ∨ ∃ j, Number.int j ∈ ns ++ [.int i] ∧ j.toInt = min e.smallest i.toInt
      rcases le_total e.smallest i.toInt with old | new
      · rw [min_eq_left old]
        exact least
      · rw [min_eq_right new]
        exact .inr ⟨i, last, rfl⟩
  | uint u =>
    refine ⟨floats nofun, wide, ⟨h.smallest.1, fun j hj => h.smallest.2 j (other hj nofun)⟩, least, fun v hv => ?_, ?_⟩
    · by_cases new : v = u
      · exact new ▸ le_max_right _ _
      · exact le_max_of_le_left (h.biggest v (other hv fun same => new (Number.uint.inj same)))
    · show max e.biggest u.toNat = 0 ∨ ∃ v, Number.uint v ∈ ns ++ [.uint u] ∧ v.toNat = max e.biggest u.toNat
      rcases le_total u.toNat e.biggest with old | new
      · rw [max_eq_left old]
        exact greatest
      · rw [max_eq_right new]
        exact .inr ⟨u, last, rfl⟩
  | float x =>
    exact ⟨⟨fun _ => ⟨x, last⟩, fun _ => rfl⟩, wide, ⟨h.smallest.1, fun j hj => h.smallest.2 j (other hj nofun)⟩, least,
      fun u hu => h.biggest u (other hu nofun), greatest⟩

/-- The extent of an array measures all its numbers. -/
theorem measures_foldl (ns : List Number) : (ns.foldl Extent.add {}).Measures ns := by
  induction ns using List.reverseRecOn with
  | nil => exact ⟨⟨nofun, nofun⟩, nofun, ⟨le_rfl, nofun⟩, .inl rfl, nofun, .inl rfl⟩
  | append_singleton ns n ih =>
    rw [List.foldl_append]
    exact ih.add n

/-!
## Order and repetition
-/

section Same

variable {e e' : Extent} {ns ms : List Number}

theorem Extent.needsDouble_foldl (ns : List Number) : ∀ e : Extent,
    (ns.foldl Extent.add e).needsDouble = (e.needsDouble || ns.any Json.needsDouble) := by
  induction ns with
  | nil => exact fun e => (Bool.or_false _).symm
  | cons n ns ih =>
    intro e
    have added : (e.add n).needsDouble = (e.needsDouble || Json.needsDouble n) := by cases n <;> rfl
    rw [List.foldl_cons, ih, added, List.any_cons, Bool.or_assoc]

/-- More numbers have a wider extent. -/
theorem Extent.Measures.widens (h : e.Measures ns) (h' : e'.Measures ms) (more : ∀ n ∈ ms, n ∈ ns) :
    e.smallest ≤ e'.smallest ∧ e'.biggest ≤ e.biggest ∧ (e'.isFloat = true → e.isFloat = true) := by
  refine ⟨?_, ?_, fun float => ?_⟩
  · rcases h'.least with zero | ⟨i, hi, least⟩
    · exact zero ▸ h.smallest.1
    · exact least ▸ h.smallest.2 i (more _ hi)
  · rcases h'.greatest with zero | ⟨u, hu, greatest⟩
    · exact zero ▸ Nat.zero_le _
    · exact greatest ▸ h.biggest u (more _ hu)
  · obtain ⟨x, hx⟩ := h'.isFloat.1 float
    exact h.isFloat.2 ⟨x, more _ hx⟩

/-- **The extent of an array depends on nothing but which numbers there are.** -/
theorem foldl_add_congr (same : ∀ n, n ∈ ns ↔ n ∈ ms) : ns.foldl Extent.add {} = ms.foldl Extent.add {} := by
  have wide := (measures_foldl ns).widens (measures_foldl ms) fun n => (same n).2
  have narrow := (measures_foldl ms).widens (measures_foldl ns) fun n => (same n).1
  have double : (ns.foldl Extent.add {}).needsDouble = (ms.foldl Extent.add {}).needsDouble := by
    rw [Extent.needsDouble_foldl, Extent.needsDouble_foldl, Bool.eq_iff_iff]
    simp only [Bool.false_or, List.any_eq_true, same]
  generalize ns.foldl Extent.add {} = e at *
  generalize ms.foldl Extent.add {} = e' at *
  obtain ⟨smallest, biggest, isFloat, needsDouble⟩ := e
  obtain ⟨smallest', biggest', isFloat', needsDouble'⟩ := e'
  rw [Extent.mk.injEq]
  exact ⟨le_antisymm wide.1 narrow.1, le_antisymm narrow.2.1 wide.2.1,
    Bool.eq_iff_iff.2 ⟨narrow.2.2, wide.2.2⟩, double⟩

end Same

theorem mapM_toNumber (ns : List Number) : (ns.map number).mapM toNumber = .ok ns :=
  Except.mapM_map_eq_ok fun _ _ => rfl

/-- An array that a buffer is had for is one of numbers. -/
theorem exists_numbers {js : List Json} {b : Buffer} (had : toBuffer js = .ok b) :
    ∃ ns : List Number, js = ns.map .number := by
  obtain ⟨t, -, had⟩ := Except.bind_eq_ok_iff.1 had
  obtain ⟨ns, numbers, -⟩ := Except.bind_eq_ok_iff.1 had
  refine ⟨ns, ?_⟩
  rw [← List.forall₂_eq_eq_eq, List.forall₂_map_right_iff]
  refine (Except.forall₂_of_mapM_eq_ok numbers).imp fun j n told => ?_
  cases j <;> cases told
  rfl

theorem elementType_numbers (ns : List Number) : elementType (ns.map .number) = (ns.foldl Extent.add {}).type := by
  rw [elementType, mapM_toNumber]
  rfl

/-!
## The type of numbers
-/

section Types

variable {e : Extent} {ns : List Number}

/-- A whole number lies between the least and the greatest one. -/
theorem Extent.Measures.between (h : e.Measures ns) {i : Int} (low : -0x8000000000000000 ≤ i)
    (high : i < 0x10000000000000000) (listed : ofWhole i ∈ ns) : e.smallest ≤ i ∧ i ≤ e.biggest := by
  rcases Int.lt_or_le i 0 with negative | natural
  · obtain ⟨n, read, number⟩ := ofWhole_negative low negative
    have := h.smallest.2 n (read ▸ listed)
    omega
  · obtain ⟨n, read, number⟩ := ofWhole_natural natural high
    have := h.biggest n (read ▸ listed)
    have := h.smallest.1
    omega

/-- The first type that holds the least and the greatest number is one of the types. -/
theorem Extent.mem_of_firstOf {types : List ScalarType} {t : ScalarType} (h : e.firstOf types = some t) :
    t ∈ types ∧ t.minInt ≤ e.smallest ∧ (e.biggest : Int) ≤ t.maxInt := by
  have holds := List.find?_some h
  simp only [Bool.and_eq_true, decide_eq_true_eq] at holds
  exact ⟨List.mem_of_find?_eq_some h, holds⟩

theorem Extent.firstOf_append (e : Extent) (types types' : List ScalarType) :
    e.firstOf (types ++ types') = (e.firstOf types).or (e.firstOf types') := List.find?_append

/-- **A type that is taken for whole numbers alone is an integer type that holds them all.** -/
theorem Extent.Measures.inRange_of_type (h : e.Measures ns) (integral : e.isFloat = false) {t : ScalarType}
    (chosen : e.type = .ok t) : t.isFloating = false ∧ ∀ i, -0x8000000000000000 ≤ i → i < 0x10000000000000000 →
      ofWhole i ∈ ns → t.inRange i = true := by
  have byFirst : ∀ types, types.all (!·.isFloating) = true → ∀ t, e.firstOf types = some t → t.isFloating = false ∧
      ∀ i, -0x8000000000000000 ≤ i → i < 0x10000000000000000 → ofWhole i ∈ ns → t.inRange i = true := by
    intro types integers t first
    obtain ⟨ht, least, greatest⟩ := Extent.mem_of_firstOf first
    have integer := List.all_eq_true.1 integers t ht
    rw [Bool.not_eq_true'] at integer
    refine ⟨integer, fun i low high listed => ?_⟩
    have := h.between low high listed
    exact ScalarType.inRange_iff.2 ⟨by omega, by omega⟩
  rw [Extent.type, integral, if_neg Bool.false_ne_true] at chosen
  split at chosen
  · split at chosen
    · rename_i first
      cases chosen
      exact byFirst _ rfl _ first
    · cases chosen
  · rename_i natural
    cases chosen
    cases first : e.firstOf [.uint8, .uint16, .uint32] with
    | some t => exact byFirst _ rfl _ first
    | none =>
      refine ⟨rfl, fun i low high listed => ScalarType.inRange_iff.2 ⟨?_, Int.le_sub_one_of_lt high⟩⟩
      have := (h.between low high listed).1
      show 0 ≤ i
      omega

end Types

/-- The narrowest integer type, with sign or without, that holds some whole numbers. -/
structure Narrowest (signed : Bool) (is : List Int) (t : ScalarType) : Prop where
  integral : t.isFloating = false
  sign : t.isSigned = signed
  holds : ∀ i ∈ is, t.inRange i = true
  least : ∀ u : ScalarType, u.isFloating = false → u.isSigned = signed → (∀ i ∈ is, u.inRange i = true) →
    t.width ≤ u.width

section Wholes

variable {e : Extent} {is : List Int}

theorem toInt_of_mem_wholes (words : ∀ i ∈ is, -0x8000000000000000 ≤ i ∧ i < 0x10000000000000000) {n : Number}
    {i : Int} (listed : n ∈ is.map ofWhole) (h : n.toInt? = some i) : i ∈ is := by
  obtain ⟨j, hj, rfl⟩ := List.mem_map.1 listed
  rw [toInt?_ofWhole (words j hj).1 (words j hj).2] at h
  exact Option.some.inj h ▸ hj

variable (h : e.Measures (is.map ofWhole)) (words : ∀ i ∈ is, -0x8000000000000000 ≤ i ∧ i < 0x10000000000000000)
include h words

theorem Extent.Measures.mem_smallest : e.smallest = 0 ∨ e.smallest ∈ is :=
  h.least.imp_right fun ⟨_, hk, same⟩ => toInt_of_mem_wholes words hk (congrArg some same)

theorem Extent.Measures.mem_biggest : e.biggest = 0 ∨ (e.biggest : Int) ∈ is :=
  h.greatest.imp_right fun ⟨_, hu, same⟩ =>
    toInt_of_mem_wholes words hu (congrArg some (congrArg Int.ofNat same))

theorem Extent.Measures.within {i : Int} (hi : i ∈ is) : e.smallest ≤ i ∧ i ≤ e.biggest :=
  h.between (words i hi).1 (words i hi).2 (List.mem_map_of_mem hi)

/-- A type holds the least and the greatest number exactly if it holds them all. -/
theorem Extent.Measures.holds_iff (t : ScalarType) :
    (t.minInt ≤ e.smallest ∧ (e.biggest : Int) ≤ t.maxInt) ↔ ∀ i ∈ is, t.inRange i = true := by
  -- an extent starts from zero, which every type holds
  have zero : t.minInt ≤ 0 ∧ 0 ≤ t.maxInt := by cases t <;> decide
  constructor
  · intro ⟨low, high⟩ i hi
    have := h.within words hi
    exact ScalarType.inRange_iff.2 ⟨by omega, by omega⟩
  · intro all
    constructor
    · rcases h.mem_smallest words with none | listed
      · exact none ▸ zero.1
      · exact (ScalarType.inRange_iff.1 (all _ listed)).1
    · rcases h.mem_biggest words with none | listed
      · exact none ▸ zero.2
      · exact (ScalarType.inRange_iff.1 (all _ listed)).2

/-- The first of all types of a kind that holds the numbers is the narrowest one, if narrower types come first. -/
theorem Extent.Measures.narrowest {signed : Bool} {types : List ScalarType}
    (ascending : types.Pairwise (·.width ≤ ·.width))
    (complete : ∀ u, u ∈ types ↔ u.isFloating = false ∧ u.isSigned = signed) {t : ScalarType}
    (first : e.firstOf types = some t) : Narrowest signed is t := by
  obtain ⟨listed, holds⟩ := Extent.mem_of_firstOf first
  obtain ⟨integral, sign⟩ := (complete t).1 listed
  refine ⟨integral, sign, (h.holds_iff words t).1 holds, fun u integral' sign' holds' => ?_⟩
  obtain ⟨-, before, behind, rfl, fails⟩ := List.find?_eq_some_iff_append.1 first
  have fits := (h.holds_iff words u).2 holds'
  rcases List.mem_append.1 ((complete u).2 ⟨integral', sign'⟩) with early | late
  · have fails := fails u early
    simp only [fits, decide_true, Bool.and_self, Bool.not_true, Bool.false_eq_true] at fails
  · rcases List.mem_cons.1 late with rfl | late
    · exact le_rfl
    · exact List.rel_of_pairwise_cons (List.pairwise_append.1 ascending).2.1 late

theorem Extent.Measures.isFloat_eq_false : e.isFloat = false := by
  rw [Bool.eq_false_iff]
  intro float
  obtain ⟨x, hx⟩ := h.isFloat.1 float
  obtain ⟨i, hi, same⟩ := List.mem_map.1 hx
  have whole := (whole?_ofWhole (words i hi).1 (words i hi).2).1
  rw [same] at whole
  cases whole

/-- Without a negative number the type has no sign. -/
theorem Extent.Measures.type_natural (natural : ∀ i ∈ is, 0 ≤ i) : ∃ t, e.type = .ok t ∧ Narrowest false is t := by
  have least : ¬ e.smallest < 0 := by
    rcases h.mem_smallest words with none | listed
    · omega
    · exact not_lt.2 (natural _ listed)
  have widest : ∀ i ∈ is, ScalarType.uint64.inRange i = true := fun i hi =>
    ScalarType.inRange_iff.2 ⟨natural i hi, Int.le_sub_one_of_lt (words i hi).2⟩
  have last : e.firstOf [.uint64] = some .uint64 := by
    refine List.find?_cons_of_pos ?_
    rw [Bool.and_eq_true, decide_eq_true_eq, decide_eq_true_eq]
    exact (h.holds_iff words _).2 widest
  have first : e.firstOf ([.uint8, .uint16, .uint32] ++ [.uint64]) =
      some ((e.firstOf [.uint8, .uint16, .uint32]).getD .uint64) := by
    rw [Extent.firstOf_append, last]
    cases e.firstOf [.uint8, .uint16, .uint32] <;> rfl
  refine ⟨_, ?_, h.narrowest words (by decide) (fun u => by cases u <;> decide) first⟩
  rw [Extent.type, h.isFloat_eq_false words, if_neg Bool.false_ne_true, if_neg least]

/-- With a negative number it has one. -/
theorem Extent.Measures.type_signed (negative : ∃ i ∈ is, i < 0) (small : ∀ i ∈ is, i ≤ 0x7fffffffffffffff) :
    ∃ t, e.type = .ok t ∧ Narrowest true is t := by
  obtain ⟨i, hi, negative⟩ := negative
  have least : e.smallest < 0 := (h.within words hi).1.trans_lt negative
  have widest : ∀ i ∈ is, ScalarType.int64.inRange i = true := fun i hi =>
    ScalarType.inRange_iff.2 ⟨(words i hi).1, small i hi⟩
  cases first : e.firstOf [.int8, .int16, .int32, .int64] with
  | none =>
    have fails := List.find?_eq_none.1 first .int64 (by decide)
    rw [Bool.and_eq_true, decide_eq_true_eq, decide_eq_true_eq] at fails
    exact absurd ((h.holds_iff words _).2 widest) fails
  | some t =>
    refine ⟨t, ?_, h.narrowest words (by decide) (fun u => by cases u <;> decide) first⟩
    rw [Extent.type, h.isFloat_eq_false words, if_neg Bool.false_ne_true, if_pos least, first]

/-- Beside a number past the signed integers there is none, and the greatest number is blamed for it. -/
theorem Extent.Measures.type_stranded (negative : ∃ i ∈ is, i < 0) (large : ∃ i ∈ is, 0x7fffffffffffffff < i) :
    ∃ m ∈ is, 0x7fffffffffffffff < m ∧ (∀ i ∈ is, i ≤ m) ∧ e.type = .error (.numericRange (ofWhole m) .int64) := by
  obtain ⟨i, hi, negative⟩ := negative
  obtain ⟨j, hj, large⟩ := large
  have least : e.smallest < 0 := (h.within words hi).1.trans_lt negative
  have past : 0x7fffffffffffffff < (e.biggest : Int) := large.trans_le (h.within words hj).2
  have none : e.firstOf [.int8, .int16, .int32, .int64] = none := by
    rw [Extent.firstOf, List.find?_eq_none]
    intro t ht holds
    have bounds : [ScalarType.int8, .int16, .int32, .int64].all (·.maxInt ≤ 0x7fffffffffffffff) = true := by decide
    have bound := of_decide_eq_true (List.all_eq_true.1 bounds t ht)
    have := of_decide_eq_true (Bool.and_eq_true_iff.1 holds).2
    omega
  have blamed : ofWhole e.biggest = .uint (UInt64.ofNat e.biggest) := by
    rw [ofWhole, if_neg (by omega), Int.natAbs_natCast]
  refine ⟨e.biggest, (h.mem_biggest words).resolve_left (by omega), past, fun i hi => (h.within words hi).2, ?_⟩
  rw [Extent.type, h.isFloat_eq_false words, if_neg Bool.false_ne_true, if_pos least, none, blamed]

end Wholes

/-!
## Storing
-/

section Storing

variable {e : Extent} {ns : List Number} {t : ScalarType}

/-- A type that is taken for a decimal keeps its text. -/
theorem Extent.Measures.exists_decimal (h : e.Measures ns) (chosen : e.type = .ok t) {x : Double}
    (finite : x.isFinite = true) (listed : .float x ∈ ns) :
    ∃ bits, t.narrow (.float x) = .ok bits ∧ (⟨t, bits⟩ : Scalar).chars = x.chars := by
  rw [Extent.type, if_pos (h.isFloat.2 ⟨x, listed⟩)] at chosen
  split at chosen
  · cases chosen
    exact ⟨x.bits, rfl, rfl⟩
  · rename_i fits
    cases chosen
    have fits : Json.needsDouble (.float x) = false :=
      Bool.eq_false_iff.2 fun needs => fits (h.needsDouble _ listed needs)
    rw [Json.needsDouble, Bool.or_eq_false_iff, Bool.not_eq_false'] at fits
    have small := not_lt.1 (of_decide_eq_false fits.1)
    exact ⟨_, narrow_float32_float (isFinite_convert finite small).1, chars_convert finite small fits.2⟩

/-- A type that is taken for a whole number keeps it, unless a decimal beside it has made the type a floating-point type
that has no such number. -/
theorem Extent.Measures.exists_whole (h : e.Measures ns) (chosen : e.type = .ok t) {i : Int}
    (low : -0x8000000000000000 ≤ i) (high : i < 0x10000000000000000) (listed : ofWhole i ∈ ns) :
    ∃ bits, t.narrow (ofWhole i) = .ok bits ∧ ((⟨t, bits⟩ : Scalar).toNumber.toInt? = some i ∨
      e.isFloat = true ∧ (⟨t, bits⟩ : Scalar) = ⟨.float64, (Floating.ofInt .double i).bits⟩) := by
  cases float : e.isFloat with
  | false =>
    obtain ⟨integral, holds⟩ := h.inRange_of_type float chosen
    have range := holds i low high listed
    exact ⟨_, ScalarType.narrow_of_inRange integral (toInt?_ofWhole low high) range,
      .inl (Scalar.toInt?_toNumber_ofInt integral range)⟩
  | true =>
    rw [Extent.type, if_pos float] at chosen
    split at chosen
    · cases chosen
      exact ⟨_, narrow_float64_ofWhole low high, .inr ⟨rfl, rfl⟩⟩
    · rename_i fits
      cases chosen
      have fits : Json.needsDouble (ofWhole i) = false :=
        Bool.eq_false_iff.2 fun needs => fits (h.needsDouble _ listed needs)
      rw [needsDouble_ofWhole low high] at fits
      have small : i.natAbs ≤ 2 * FloatFormat.single.leadingBit := not_lt.1 (of_decide_eq_false fits)
      have denoted := (Floating.toInt?_ofInt_iff (by decide)).2 (Floating.exists_toInt? (.inl rfl) small)
      exact ⟨_, narrow_float32_ofWhole low high, .inl (Floating.toInt?_convert_double denoted)⟩

/-- **The type that is taken accepts every number of the array.** -/
theorem Extent.Measures.exists_narrow (h : e.Measures ns) (told : ∀ n ∈ ns, n.isJson = true) (chosen : e.type = .ok t) :
    ∀ n ∈ ns, ∃ bits, t.narrow n = .ok bits := by
  intro n hn
  cases whole : n.whole? with
  | some i =>
    obtain ⟨low, high, rfl⟩ := eq_ofWhole (told n hn) whole
    obtain ⟨bits, stored, -⟩ := h.exists_whole chosen low high hn
    exact ⟨bits, stored⟩
  | none =>
    cases n with
    | float x =>
      obtain ⟨bits, stored, -⟩ := h.exists_decimal chosen (told _ hn) hn
      exact ⟨bits, stored⟩
    | _ => cases whole

end Storing

theorem toBuffer_numbers (ns : List Number) : toBuffer (ns.map .number) =
    (elementType (ns.map .number) >>= fun type => Buffer.ofNumbers type ns) := by
  rw [toBuffer, mapM_toNumber]
  rfl

/-- A buffer that is had for numbers holds each of them as its type narrows it. -/
theorem scalars_of_toBuffer {ns : List Number} {b : Buffer} (had : toBuffer (ns.map .number) = .ok b) :
    (ns.foldl Extent.add {}).type = .ok b.type ∧
      List.Forall₂ (fun n s => ∃ bits, b.type.narrow n = .ok bits ∧ s = ⟨b.type, bits⟩) ns b.scalars := by
  rw [toBuffer_numbers, elementType_numbers] at had
  obtain ⟨t, chosen, made⟩ := Except.bind_eq_ok_iff.1 had
  obtain ⟨rfl, -, elements, stored, scalars⟩ := Buffer.exists_of_ofNumbers made
  rw [scalars, List.forall₂_map_right_iff]
  exact ⟨chosen, stored.imp fun _ bits narrowed => ⟨bits, narrowed, rfl⟩⟩

/-- What is stored of whole numbers alone denotes them. -/
theorem toInt?_scalars {ns : List Number} {b : Buffer} (told : ∀ n ∈ ns, n.isJson = true)
    (whole : ∀ n ∈ ns, n.whole?.isSome = true) (had : toBuffer (ns.map .number) = .ok b) :
    b.scalars.map (·.toNumber.toInt?) = ns.map Number.whole? := by
  obtain ⟨chosen, stored⟩ := scalars_of_toBuffer had
  have measures := measures_foldl ns
  have integral : ¬ (ns.foldl Extent.add {}).isFloat = true := by
    intro float
    obtain ⟨x, hx⟩ := measures.isFloat.1 float
    exact absurd (whole _ hx) Bool.false_ne_true
  rw [eq_comm, ← List.forall₂_eq_eq_eq, List.forall₂_map_left_iff, List.forall₂_map_right_iff]
  refine forall₂_imp_of_mem stored fun n hn s _ => ?_
  rintro ⟨bits, narrowed, rfl⟩
  obtain ⟨i, hi⟩ := Option.isSome_iff_exists.1 (whole n hn)
  obtain ⟨low, high, rfl⟩ := eq_ofWhole (told n hn) hi
  obtain ⟨bits', narrowed', denotes⟩ := measures.exists_whole chosen low high hn
  obtain rfl := Except.ok.inj (narrowed.symm.trans narrowed')
  rw [hi]
  exact (denotes.resolve_right fun mixed => integral mixed.1).symm

/-- **Narrowing takes the narrowest type, whatever the order of the numbers, and storing accepts what it takes.** -/
theorem elementType_narrowest :
    (∀ is : List Int, (∀ i ∈ is, -0x8000000000000000 ≤ i ∧ i < 0x10000000000000000) →
      ((∀ i ∈ is, 0 ≤ i) → ∃ t, elementType (is.map fun i => .number (ofWhole i)) = .ok t ∧ Narrowest false is t) ∧
      ((∃ i ∈ is, i < 0) → (∀ i ∈ is, i ≤ 0x7fffffffffffffff) →
        ∃ t, elementType (is.map fun i => .number (ofWhole i)) = .ok t ∧ Narrowest true is t) ∧
      ∀ err, elementType (is.map fun i => .number (ofWhole i)) = .error err ↔ (∃ i ∈ is, i < 0) ∧
        ∃ m ∈ is, 0x7fffffffffffffff < m ∧ (∀ i ∈ is, i ≤ m) ∧ err = .numericRange (ofWhole m) .int64) ∧
    (∀ ns ms : List Number, (∀ n, n ∈ ns ↔ n ∈ ms) → elementType (ns.map .number) = elementType (ms.map .number)) ∧
    ∀ ns : List Number, (∀ n ∈ ns, n.isJson = true) → ∀ t, elementType (ns.map .number) = .ok t →
      (∀ n ∈ ns, ∃ bits, t.narrow n = .ok bits) ∧
      ∀ zeros, Buffer.zeroed t ns.length = .ok zeros → ∃ b, toBuffer (ns.map .number) = .ok b ∧ b.type = t ∧
        b.length = ns.length ∧
          ((∀ n ∈ ns, n.whole?.isSome = true) → b.scalars.map (·.toNumber.toInt?) = ns.map Number.whole?) := by
  refine ⟨fun is words => ?_, fun ns ms same => ?_, fun ns told t chosen => ?_⟩
  · have measures := measures_foldl (is.map ofWhole)
    have typed : elementType (is.map fun i => .number (ofWhole i)) = ((is.map ofWhole).foldl Extent.add {}).type := by
      rw [← elementType_numbers, List.map_map]
      rfl
    rw [typed]
    refine ⟨measures.type_natural words, measures.type_signed words, fun err => ⟨fun failed => ?_, ?_⟩⟩
    · by_cases negative : ∃ i ∈ is, i < 0
      · by_cases large : ∃ i ∈ is, 0x7fffffffffffffff < i
        · obtain ⟨m, hm, past, greatest, failed'⟩ := measures.type_stranded words negative large
          exact ⟨negative, m, hm, past, greatest, Except.error.inj (failed.symm.trans failed')⟩
        · push Not at large
          obtain ⟨t, chosen, -⟩ := measures.type_signed words negative large
          cases failed.symm.trans chosen
      · push Not at negative
        obtain ⟨t, chosen, -⟩ := measures.type_natural words negative
        cases failed.symm.trans chosen
    · rintro ⟨negative, m, hm, past, greatest, rfl⟩
      obtain ⟨m', hm', -, greatest', failed⟩ := measures.type_stranded words negative ⟨m, hm, past⟩
      rw [failed, le_antisymm (greatest' m hm) (greatest m' hm')]
  · rw [elementType_numbers, elementType_numbers, foldl_add_congr same]
  · have accepted := (measures_foldl ns).exists_narrow told (elementType_numbers ns ▸ chosen)
    refine ⟨accepted, fun zeros granted => ?_⟩
    obtain ⟨elements, stored⟩ := exists_forall₂ accepted
    obtain ⟨b, made, -⟩ := Buffer.exists_ofNumbers stored (Buffer.zeroed_eq_ok_iff.1 granted).1
    obtain ⟨type, length, -⟩ := Buffer.exists_of_ofNumbers made
    have had : toBuffer (ns.map .number) = .ok b := by
      rw [toBuffer_numbers, chosen]
      exact made
    exact ⟨b, had, type, length, fun whole => toInt?_scalars told whole had⟩

def halfNumber : Number := .float ⟨0x3fe0000000000000#64⟩

theorem elementType_narrowest_signs :
    (∃ t, elementType ([0, 300].map fun i => .number (ofWhole i)) = .ok t ∧ Narrowest false [0, 300] t) ∧
    (∃ t, elementType ([-1, 200].map fun i => .number (ofWhole i)) = .ok t ∧ Narrowest true [-1, 200] t) ∧
    elementType ([-1, 0xffffffffffffffff].map fun i => .number (ofWhole i)) =
      .error (.numericRange (ofWhole 0xffffffffffffffff) .int64) ∧
    elementType ([halfNumber, .uint 3, halfNumber].map .number) = elementType ([.uint 3, halfNumber].map .number) ∧
    ∃ b, toBuffer ([ofWhole (-1), ofWhole 200].map .number) = .ok b ∧ b.type = .int16 ∧ b.length = 2 ∧
      b.scalars.map (·.toNumber.toInt?) = [some (-1), some 200] := by
  obtain ⟨wholes, same, stored⟩ := elementType_narrowest
  refine ⟨(wholes [0, 300] (by decide)).1 (by decide), (wholes [-1, 200] (by decide)).2.1 (by decide) (by decide),
    ((wholes [-1, 0xffffffffffffffff] (by decide)).2.2 _).2 (by decide), same _ _ fun n => ?_, ?_⟩
  · simp only [List.mem_cons, List.not_mem_nil, or_false]
    grind
  · obtain ⟨-, had⟩ := stored [ofWhole (-1), ofWhole 200] (by decide) .int16 rfl
    obtain ⟨b, read, type, length, whole⟩ := had _ rfl
    exact ⟨b, read, type, length, whole (by decide)⟩

/-!
## Mixed arrays
-/

/-- What is stored of a number of an array.  A decimal is kept.  A whole number is kept if the array has no decimal or if
there is a double for it; else the double nearest to it is stored. -/
structure StoredOf (ns : List Number) (n : Number) (s : Scalar) : Prop where
  decimal : ∀ x, n = .float x → Decimal.floating? .double s.chars = some x
  whole : ∀ i, n.whole? = some i →
    (s.toNumber.toInt? = some i ↔ (∀ x, Number.float x ∉ ns) ∨ ∃ y : Double, y.toInt? = some i)
  rounded : ∀ i, n.whole? = some i → s.toNumber.toInt? ≠ some i → s = ⟨.float64, (Floating.ofInt .double i).bits⟩

/-- A stored floating-point number is a double as a number. -/
theorem exists_toNumber_float {t : ScalarType} (h : t.isFloating = true) (bits : t.Bits) :
    ∃ y, (⟨t, bits⟩ : Scalar).toNumber = .float y := by
  cases t <;> first | exact ⟨_, rfl⟩ | cases h

theorem Extent.Measures.storedOf {e : Extent} {ns : List Number} (h : e.Measures ns) {t : ScalarType}
    (chosen : e.type = .ok t) {n : Number} (told : n.isJson = true) (listed : n ∈ ns) {bits : t.Bits}
    (narrowed : t.narrow n = .ok bits) : StoredOf ns n ⟨t, bits⟩ := by
  have whole : ∀ i, n.whole? = some i → (⟨t, bits⟩ : Scalar).toNumber.toInt? = some i ∨
      e.isFloat = true ∧ (⟨t, bits⟩ : Scalar) = ⟨.float64, (Floating.ofInt .double i).bits⟩ := by
    intro i hi
    obtain ⟨low, high, rfl⟩ := eq_ofWhole told hi
    obtain ⟨bits', narrowed', denotes⟩ := h.exists_whole chosen low high listed
    obtain rfl := Except.ok.inj (narrowed.symm.trans narrowed')
    exact denotes
  refine ⟨?_, fun i hi => ⟨fun denotes => ?_, ?_⟩, fun i hi lost => ((whole i hi).resolve_left lost).2⟩
  · rintro x rfl
    obtain ⟨bits', narrowed', same⟩ := h.exists_decimal chosen told listed
    obtain rfl := Except.ok.inj (narrowed.symm.trans narrowed')
    rw [same]
    exact Floating.floating?_chars (.inr rfl) told
  · cases float : e.isFloat with
    | false => exact .inl fun x hx => absurd (h.isFloat.2 ⟨x, hx⟩) (by rw [float]; decide)
    | true =>
      have floating : t.isFloating = true := by
        rw [Extent.type, if_pos float] at chosen
        split at chosen <;> cases chosen <;> rfl
      obtain ⟨y, number⟩ := exists_toNumber_float floating bits
      rw [number] at denotes
      exact .inr ⟨y, denotes⟩
  · rintro (none | denoted)
    · refine (whole i hi).resolve_right fun mixed => ?_
      obtain ⟨x, hx⟩ := h.isFloat.1 mixed.1
      exact none x hx
    · rcases whole i hi with denotes | ⟨-, same⟩
      · exact denotes
      · rw [same]
        exact (Floating.toInt?_ofInt_iff (by decide)).2 denoted

/-- **An array that is decoded into a buffer is one of numbers, and its decimals are kept; of the whole numbers beside
them only those are kept for which there is a double.** -/
theorem decodeInto_buffer_stored {S : Schema} {L : Limits} {room : Nat} {a : Buffer} {js : List Json} {w : Value}
    (tree : (Json.array js).WellFormed) (h : decodeInto S L room (.buffer a) (.array js) = .ok w) :
    ∃ ns b, js = ns.map .number ∧ w = .buffer b ∧ List.Forall₂ (StoredOf ns) ns b.scalars := by
  cases room with
  | zero => cases h
  | succ room =>
    cases decodeInto_eq_ok_iff.1 h with
    | fill optional => cases optional
    | @buffer _ b _ _ had =>
      obtain ⟨ns, rfl⟩ := exists_numbers had
      have told : ∀ n ∈ ns, n.isJson = true := by
        cases tree with
        | array each =>
          intro n hn
          cases each _ (List.mem_map_of_mem hn) with
          | number told => exact told
      obtain ⟨chosen, stored⟩ := scalars_of_toBuffer had
      refine ⟨ns, b, rfl, rfl, forall₂_imp_of_mem stored fun n hn s _ => ?_⟩
      rintro ⟨bits, narrowed, rfl⟩
      exact (measures_foldl ns).storedOf chosen (told n hn) hn narrowed

def mixture : List Number := [halfNumber, .uint 9007199254740993, .int (-3)]

theorem decodeInto_buffer_stored_mixture : ∃ b,
    decodeInto {} {} 1 (.buffer {}) (.array (mixture.map .number)) = .ok (.buffer b) ∧
      List.Forall₂ (StoredOf mixture) mixture b.scalars := by
  have parsed : parse? "[0.5, 9007199254740993, -3]".toList = some (.array (mixture.map .number)) := rfl
  have had : toBuffer (mixture.map .number) =
      .ok (.ofList .float64 [0x3fe0000000000000#64, 0x4340000000000000#64, 0xc008000000000000#64]) := by
    decide +kernel
  have decoded : decodeInto {} {} 1 (.buffer {}) (.array (mixture.map .number)) = .ok (.buffer _) :=
    decodeInto_eq_ok_iff.2 (.buffer (by decide) had)
  obtain ⟨ns, b, same, buffer, stored⟩ := decodeInto_buffer_stored (wellFormed_of_parse? parsed) decoded
  obtain rfl : mixture = ns := List.map_injective_iff.2 (fun _ _ same => number.inj same) same
  exact ⟨b, buffer ▸ decoded, stored⟩

/-- Beside one half the number after two to the power of 53 is rounded, although one half alone is a single and the
number alone is a `uint64_t`. -/
theorem odd_beside_half_rounded :
    parse? "[0.5, 9007199254740993]".toList =
      some (.array [.number halfNumber, .number (.uint 9007199254740993)]) ∧
    ∃ b, read {} {} .buffer "[0.5, 9007199254740993]" = .ok (.buffer b) ∧
      b.scalars.map (·.toNumber.toInt?) = [none, some 9007199254740992] := by
  have parsed : parse? "[0.5, 9007199254740993]".toList =
      some (.array [.number halfNumber, .number (.uint 9007199254740993)]) := rfl
  have had : toBuffer [.number halfNumber, .number (.uint 9007199254740993)] =
      .ok (.ofList .float64 [0x3fe0000000000000#64, 0x4340000000000000#64]) := by
    decide +kernel
  refine ⟨parsed, .ofList .float64 [0x3fe0000000000000#64, 0x4340000000000000#64], ?_, by decide +kernel⟩
  rw [read, readWith, parsed]
  exact decodeInto_eq_ok_iff.2 (.buffer (by decide) had)

end Json
end AssetRecords
