import AssetRecords.Packed.Writer
import AssetRecords.Proofs.Decimal.DoubleRounding
import AssetRecords.Proofs.Json.Buffers
import AssetRecords.Proofs.Json.RoundTrip
/-!
# Singles — numbers of 32 bits by way of their texts

A token is read as a double or a whole number of 64 bits (`Json.parse?_chars`), and so is a JSON number where decimals
are rounded once; what is read is narrowed to 32 bits where it is stored.  Every finite number of 32 bits is found again
that way in its own text, but one (`texts_reread_singles`).
-/
namespace AssetRecords

/-- The bits of a number of 32 bits, as those of its type. -/
def Floating.stored (x : Single) : ScalarType.float32.Bits := x.bits

/-- What a number of 32 bits is read as from its text: itself, if it is not the one whose decimal a double takes for the
midpoint above it. -/
def reread (x : Single) : Single :=
  if x.magnitude = 0x15ae43fd then .ofMagnitude .single x.negative 0x15ae43fe else x

theorem reread_eq_self_iff {x : Single} : reread x = x ↔ x.magnitude ≠ 0x15ae43fd := by
  rw [reread]
  split
  · rename_i unusual
    refine ⟨fun same => ?_, fun usual => absurd unusual usual⟩
    rw [← same, Floating.magnitude_ofMagnitude _ (by decide)] at unusual
    exact absurd unusual (by decide)
  · rename_i usual
    exact ⟨fun _ => usual, fun _ => rfl⟩

/-- A double with the text of a number of 32 bits is next to the number. -/
theorem convert_of_chars {x : Single} {y : Double} (finite : x.isFinite = true) (finite' : y.isFinite = true)
    (text : y.chars = x.chars) (usual : x.magnitude ≠ 0x15ae43fd) : y.convert .single = x := by
  obtain ⟨z, finite'', negative, decimal⟩ := Floating.exists_double finite
  have same : z.chars = y.chars := by
    rw [text, Floating.chars_of_isFinite finite, Floating.chars_of_isFinite finite'', negative, decimal]
  have read := Floating.floating?_chars (.inr rfl) finite''
  rw [same, Floating.floating?_chars (.inr rfl) finite'] at read
  obtain rfl := Option.some.inj read
  have near := Floating.isNearest_decimal (.inr rfl) finite'
  rw [decimal] at near
  have nearest : FloatFormat.single.IsNearest (FloatFormat.double.value y.magnitude) x.magnitude := by
    rw [Floating.decimal] at near
    split at near
    · rename_i zero
      rw [Decimal.number, Nat.cast_zero, zero_mul, ← FloatFormat.double.value_zero] at near
      rw [near.unique (FloatFormat.isNearest_value 0), zero, FloatFormat.value_zero, ← FloatFormat.single.value_zero]
      exact FloatFormat.isNearest_value 0
    · rename_i positive
      exact Decimal.isNearest_double (Nat.pos_of_ne_zero positive) (Floating.isFinite_iff.1 finite) usual near
  rw [Floating.convert_eq (by decide) finite' (Floating.isFinite_iff.1 finite) nearest, negative,
    Floating.ofMagnitude_magnitude]

section Reading

variable {number : List Char → Option Number}

/-- **What the text of a number of 32 bits is rounded to is narrowed to the number**, or to the one above it. -/
theorem narrow_numeral_single (rounds : Json.RoundsToNearest number) {x : Single} (finite : x.isFinite = true) :
    ScalarType.float32.narrow (Json.numeral number (.ofSingle x)) = .ok (reread x).stored := by
  by_cases usual : x.magnitude = 0x15ae43fd
  · have pattern := Floating.ofMagnitude_magnitude x
    rw [rounds.numeral_eq (s := .ofSingle x) finite]
    rw [usual] at pattern
    rw [reread, if_pos usual, ← pattern, Floating.negative_ofMagnitude _ (by decide)]
    cases x.negative with
    | false | true => exact Except.toOption_eq_some_iff.1 (by decide +kernel)
  rw [reread, if_neg usual]
  obtain ⟨-, read⟩ := (rounds.tells (s := .ofSingle x) finite).numeral
  generalize Json.numeral number (.ofSingle x) = n at read
  cases read with
  | whole i low high text =>
    rw [Json.narrow_float32_ofWhole low high, Decimal.ofInt_eq_of_chars (.inl rfl) finite text]
    rfl
  | double y finite' text floating =>
    have converted := convert_of_chars finite finite' text usual
    rw [Json.narrow_float32_float (by rwa [converted]), converted]
    rfl

namespace Json

variable {parse : List Char → Option Json}

/-- The text of a finite number is a document. -/
theorem Conforms.parse_chars (conforms : Conforms parse number) {s : Scalar} (finite : s.isFinite = true) :
    parse s.chars = (number s.chars).map .number :=
  conforms.grammar (Denotes.number (isNumber_chars finite)).isText (Nat.zero_le _)

/-- So is the text of an array of finite numbers. -/
theorem Conforms.exists_parse_numbers (conforms : Conforms parse number) (rounds : RoundsToNearest number)
    {layout : Layout} (spaced : layout.Spaced) {xs : List Single} (finite : ∀ x ∈ xs, x.isFinite = true) :
    ∃ t, render layout (.numbers .float32 (xs.map Floating.stored)) = .ok t ∧
      parse t.toList = some (.array (xs.map fun x => .number (numeral number (.ofSingle x)))) := by
  have scalars : ∀ s ∈ (Value.numbers .float32 (xs.map Floating.stored)).scalars, s.isFinite = true := by
    intro s hs
    obtain ⟨bits, hb, rfl⟩ := List.mem_map.1 hs
    obtain ⟨x, hx, rfl⟩ := List.mem_map.1 hb
    exact finite x hx
  obtain ⟨cs, given⟩ : ∃ cs, (write layout 0 (.numbers .float32 (xs.map Floating.stored))).Gives cs := by
    rw [write]
    exact ⟨_, gives_numbers_iff.2 ⟨scalars, rfl⟩⟩
  have written : render layout (.numbers .float32 (xs.map Floating.stored)) = .ok (String.ofList cs) := by
    rwa [render_eq_ok_iff, String.toList_ofList]
  have low : nesting (.numbers .float32 (xs.map Floating.stored)) ≤ maxNesting := by
    rw [nesting, levels]
    decide
  have parsed := conforms.parse_of_render spaced written (rounds.numeric given) low
  rw [tree, List.map_map] at parsed
  exact ⟨_, written, parsed⟩

theorem bulkCopy_singles (rounds : RoundsToNearest number) {xs : List Single} (finite : ∀ x ∈ xs, x.isFinite = true) :
    bulkCopy .float32 (xs.map fun x => .number (numeral number (.ofSingle x))) =
      .ok (xs.map fun x => (reread x).stored) := by
  refine Except.mapM_eq_ok_of_forall₂ ?_
  rw [List.forall₂_map_left_iff, List.forall₂_map_right_iff, List.forall₂_same]
  exact fun x hx => narrow_numeral_single rounds (finite x hx)

end Json

end Reading

/-- **Texts keep every finite number of 32 bits but one.**  Its own text is read as the number as a token; so it is as a
JSON number, alone or in an array and whatever was there before, by a parser that rounds decimals once.  Only
`0x15ae43fd`, of either sign, is read as the next one. -/
theorem texts_reread_singles (S : Schema) (L : Limits) :
    (∀ x : Single, x.isFinite = true → ScalarType.float32.parse x.chars = .ok (reread x).stored) ∧
    (∀ parse number, Json.Conforms parse number → Json.RoundsToNearest number →
      (∀ x : Single, x.isFinite = true → ∀ room old,
        (parse x.chars).map (Json.decodeInto S L (room + 1) (.leaf (.number ⟨.float32, old⟩))) =
          some (.ok (.leaf (.number (.ofSingle (reread x)))))) ∧
      ∀ (layout : Json.Layout) (xs : List Single), layout.Spaced → (∀ x ∈ xs, x.isFinite = true) →
        xs.length ≤ L.maxElements →
          ∃ t, Json.render layout (.numbers .float32 (xs.map Floating.stored)) = .ok t ∧
            ∀ room old, (parse t.toList).map (Json.decodeInto S L (room + 1) (.numbers .float32 old)) =
              some (.ok (.numbers .float32 (xs.map fun x => (reread x).stored)))) ∧
    ∀ x, reread x = x ↔ x.magnitude ≠ 0x15ae43fd := by
  refine ⟨fun x finite => ?_, fun parse number conforms rounds => ⟨fun x finite room old => ?_,
    fun layout xs spaced finite few => ?_⟩, fun x => reread_eq_self_iff⟩
  · show ScalarType.float32.parse (Scalar.ofSingle x).chars = _
    rw [ScalarType.parse, Json.parse?_chars (s := .ofSingle x) finite]
    exact narrow_numeral_single Json.roundsToNearest_roundNumber? finite
  · have read : number (Scalar.ofSingle x).chars = some (Json.numeral number (.ofSingle x)) :=
      (rounds.tells (s := .ofSingle x) finite).numeral.1
    show (parse (Scalar.ofSingle x).chars).map _ = _
    rw [conforms.parse_chars (s := .ofSingle x) finite, read, Option.map_some, Option.map_some, Json.decodeInto,
      Json.assignLeaf, Leaf.setNumber, narrow_numeral_single rounds finite]
    · rfl
    · rintro _ ⟨⟩
  · obtain ⟨t, written, parsed⟩ := conforms.exists_parse_numbers rounds spaced finite
    refine ⟨t, written, fun room old => ?_⟩
    rw [parsed, Option.map_some, Json.decodeInto_numbers (Json.bulkCopy_singles rounds finite)]
    rwa [List.length_map]

theorem texts_reread_singles_tenth :
    ScalarType.float32.parse "-0.1".toList = .ok 0xbdcccccd#32 ∧
      (Json.parseWith? Json.roundNumber? "[-0.1, 16777216]".toList).map
        (Json.decodeInto {} {} 1 (.numbers .float32 [])) =
          some (.ok (.numbers .float32 [0xbdcccccd#32, 0x4b800000#32])) := by
  obtain ⟨token, json, usual⟩ := texts_reread_singles {} {}
  have conforms := Json.conforms_parseWith? Json.roundsToNearest_roundNumber?.readsWords
  have tenth := token ⟨0xbdcccccd#32⟩ (by decide)
  have text : (⟨0xbdcccccd#32⟩ : Single).chars = "-0.1".toList := by decide +kernel
  have written : Json.render {} (.numbers .float32 [0xbdcccccd#32, 0x4b800000#32]) = .ok "[-0.1, 16777216]" :=
    Except.toOption_eq_some_iff.1 (by decide +kernel)
  obtain ⟨t, written', listed⟩ := (json _ _ conforms Json.roundsToNearest_roundNumber?).2 {}
    [⟨0xbdcccccd#32⟩, ⟨0x4b800000#32⟩] (by decide) (by decide) (by decide)
  obtain rfl := Except.ok.inj (written'.symm.trans written)
  have kept := (usual ⟨0xbdcccccd#32⟩).2 (by decide)
  have kept' := (usual ⟨0x4b800000#32⟩).2 (by decide)
  have listed := listed 0 []
  rw [text, kept] at tenth
  rw [List.map_cons, List.map_cons, kept, kept'] at listed
  exact ⟨tenth, listed⟩

/-- The number that is not found again: it is the one nearest to its text, but as a token the text is read as the next
one above.  The reader of JSON of this library happens to find it, since it does not round to the nearest double. -/
theorem single_not_kept :
    (⟨0x15ae43fd#32⟩ : Single).isFinite = true ∧
      (⟨0x15ae43fd#32⟩ : Single).chars = "0.00000000000000000000000007038531".toList ∧
      Decimal.floating? .single "0.00000000000000000000000007038531".toList = some ⟨0x15ae43fd#32⟩ ∧
      ScalarType.float32.parse "0.00000000000000000000000007038531".toList = .ok 0x15ae43fe#32 ∧
      (Json.read {} {} (.numbers .float32) "[0.00000000000000000000000007038531]" >>= Packed.write) =
        .ok [1, 0, 0, 0, 0xfd, 0x43, 0xae, 0x15] :=
  ⟨by decide, by decide +kernel, by decide +kernel, Except.toOption_eq_some_iff.1 (by decide +kernel),
    Except.toOption_eq_some_iff.1 (by decide +kernel)⟩

end AssetRecords
