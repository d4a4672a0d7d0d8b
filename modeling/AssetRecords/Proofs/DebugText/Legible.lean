import AssetRecords.Proofs.DebugText.Lists
import AssetRecords.Proofs.Typing
/-!
# Legible — what debug text can tell

Debug text has no types in it: a key, a missing optional and a number all stand there as words.  `Legible` is what a
value needs for its words to be understood; strings and whole numbers always are.
-/
namespace AssetRecords
namespace DebugText

/-- The value is written as the word that stands for an absent optional. -/
def isNull : Value → Bool
  | .absent _ => true
  | .enum table variant => table.keyOf? variant == some "null"
  | _ => false

/-- What debug text cannot tell of values in general.  A key is to be found again and to be one token; what is present
is not to look absent; and a floating-point number is to be found again from its own text. -/
structure Legible (v : Value) : Prop where
  keys : ∀ table variant key, (Value.enum table variant).Occurs v → table.keyOf? variant = some key →
    table.valueOf? key = some variant ∧ IsToken key.toList
  contents : ∀ content w, (Value.present content w).Occurs v → isNull w = false
  floats : ∀ (w : Value) (s : Scalar), w.Occurs v → s ∈ w.scalars → s.type.isFloating = true →
    s.type.parse s.chars = .ok s.bits

theorem Legible.part {p v : Value} (h : Legible v) (hp : p ∈ v.parts) : Legible p where
  keys table variant key occurs := h.keys table variant key (.part hp occurs)
  contents content w occurs := h.contents content w (.part hp occurs)
  floats w s occurs := h.floats w s (.part hp occurs)

/-- Whole numbers are found again in any case. -/
theorem Legible.parse_chars {v : Value} (h : Legible v) {s : Scalar} (hs : s ∈ v.scalars) :
    s.type.parse s.chars = .ok s.bits := by
  cases floating : s.type.isFloating with
  | true => exact h.floats v s .self hs floating
  | false => exact Scalar.parse_chars floating

/-- What `Legible` asks of a value apart from its parts. -/
def legible : Value → Bool
  | .enum table variant =>
    (table.keyOf? variant).all fun key => decide (table.valueOf? key = some variant ∧ IsToken key.toList)
  | .present _ w => !isNull w
  | w => w.scalars.all returns
where
  returns (s : Scalar) : Bool := !s.type.isFloating || decide ((s.type.parse s.chars).toOption = some s.bits)

theorem legible_of_all {v : Value} (h : v.all legible = true) : Legible v := by
  rw [Value.all_eq_true_iff] at h
  refine ⟨fun table variant key occurs listed => ?_, fun content w occurs => ?_, fun w s occurs hs floating => ?_⟩
  · have this := h _ occurs
    rw [legible, listed] at this
    exact of_decide_eq_true this
  · have this := h _ occurs
    rwa [legible, Bool.not_eq_true'] at this
  · have this := h w occurs
    have each : w.scalars.all legible.returns = true := by
      cases w with
      | leaf l => exact this
      | numbers type ns => exact this
      | buffer b => exact this
      | _ => rfl
    have this := List.all_eq_true.1 each s hs
    rw [legible.returns, floating, Bool.not_true, Bool.false_or] at this
    exact Except.toOption_eq_some_iff.1 (of_decide_eq_true this)

/-!
## Leaves and buffers
-/

theorem Reads.pure {α β : Type} {read : Scan α} {text : List Char} {a : α} (h : Reads read text a) (f : α → β) :
    Reads (do return f (← read)) text (f a) :=
  h.bind fun _ => yields_pure _ _

theorem Reads.parse {α : Type} {text : List Char} {a : α} (h : IsToken text) {parse : List Char → Except Error α}
    (back : parse text = .ok a) : Reads (do parse (← token)) text a :=
  (reads_token h).bind fun _ => yields_liftM back _

theorem isToken_chars (s : Scalar) : IsToken s.chars := isToken_of_isNumeral s.isNumeral_chars

theorem reads_leaf {l : Leaf} (h : Legible (.leaf l)) : Reads (readLeaf l.type) (writeLeaf l) l := by
  cases l with
  | bool b => cases b with
    | true => exact Reads.parse (by decide) rfl
    | false => exact Reads.parse (by decide) rfl
  | number n =>
    have back : n.type.parse n.chars = .ok n.bits := h.parse_chars (List.mem_singleton_self n)
    refine Reads.parse (isToken_chars n) ?_
    show (fun bits => Leaf.number ⟨n.type, bits⟩) <$> n.type.parse n.chars = _
    rw [back]
    rfl
  | text s =>
    have back := (reads_quoted s.toList).pure fun cs => Leaf.text (String.ofList cs)
    rw [String.ofList_toList] at back
    exact back

/-- A buffer of the numbers that its elements are read as is the buffer. -/
theorem ofNumbers_eq_ok {b : Buffer} (wf : b.WellFormed) {ns : List Number} (length : ns.length = b.length)
    (h : ns.mapM b.type.narrow = .ok b.elements) : Buffer.ofNumbers b.type ns = .ok b := by
  have held := (Buffer.ofPayload_eq_ok_iff wf.length_payload).2 ⟨wf, rfl, rfl, rfl⟩
  rw [Buffer.ofNumbers, length, h]
  rw [Buffer.ofPayload, ← wf.flatMap_elements] at held
  exact held

theorem opens_of_isToken {t : List Char} (h : IsToken t) : Opens t := by
  obtain ⟨some, plain⟩ := h
  cases t with
  | nil => exact absurd rfl some
  | cons c cs =>
    rw [List.all_cons, Bool.and_eq_true, Bool.not_eq_true'] at plain
    refine ⟨c, cs, rfl, isBlank_of_isDelimiter plain.1, ?_⟩
    rintro rfl
    exact absurd plain.1 (by decide)

theorem isToken_name (type : ScalarType) : IsToken type.name.toList := by cases type <;> decide

/-- A number as it is found between the brackets of a buffer. -/
def found {type : ScalarType} (bits : type.Bits) : Number := (Number.parse? (Scalar.chars ⟨type, bits⟩)).getD (.uint 0)

theorem parse?_eq_found {type : ScalarType} {bits : type.Bits} (h : type.parse (Scalar.chars ⟨type, bits⟩) = .ok bits) :
    Number.parse? (Scalar.chars ⟨type, bits⟩) = some (found bits) ∧ type.narrow (found bits) = .ok bits := by
  unfold ScalarType.parse at h
  unfold found
  cases hn : Number.parse? (Scalar.chars ⟨type, bits⟩) with
  | none => rw [hn] at h; cases h
  | some n => rw [hn] at h; exact ⟨rfl, h⟩

theorem reads_number {L : Limits} {t : List Char} {n : Number} {count : Nat} (token : IsToken t)
    (parsed : Number.parse? t = some n) (few : count ≤ L.maxElements) : Reads (readNumber L count) t n := by
  refine (reads_token token).bind fun s => ?_
  simp only [parsed]
  exact (yields_liftM (Limits.checkCount_eq_ok_iff.2 few) s).bind fun _ => yields_pure _ _

theorem reads_buffer {L : Limits} {b : Buffer} (wf : b.WellFormed) (few : b.length ≤ L.maxElements)
    (h : Legible (.buffer b)) : Reads (readBuffer L) (writeBuffer b) b := by
  have back : ∀ bits ∈ b.elements, b.type.parse (Scalar.chars ⟨b.type, bits⟩) = .ok bits := fun bits hb =>
    h.parse_chars (s := ⟨b.type, bits⟩) (List.mem_map_of_mem hb)
  have stored : Buffer.ofNumbers b.type (b.elements.map found) = .ok b := by
    have converted := Except.mapM_map_eq_ok fun bits hb => (parse?_eq_found (back bits hb)).2
    exact ofNumbers_eq_ok wf (by rw [List.length_map, b.length_elements]) converted
  have elements : List.Forall₂ (fun t n => Opens t ∧ ∀ count ≤ L.maxElements, Reads (readNumber L count) t n)
      (b.scalars.map Scalar.chars) (b.elements.map found) := by
    rw [Buffer.scalars, List.map_map, List.forall₂_map_left_iff, List.forall₂_map_right_iff]
    refine List.forall₂_same.2 fun bits hb => ⟨opens_of_isToken (isToken_chars _), fun count few => ?_⟩
    exact reads_number (isToken_chars _) (parse?_eq_found (back bits hb)).1 few
  have length : (b.scalars.map Scalar.chars).length ≤ L.maxElements := by
    rwa [Buffer.scalars, List.length_map, List.length_map, b.length_elements]
  intro offset gap after closers blank stops
  rw [writeBuffer, List.append_assoc]
  have bracket : Stops (bracketed '[' ']' (b.scalars.map Scalar.chars) ++ after) := stops_cons (by decide)
  refine (yields_token gap blank (isToken_name b.type) bracket).bind fun offset => ?_
  simp only [String.ofList_toList, ScalarType.ofName?_name]
  exact (reads_elements elements length offset [] after closers rfl stops).bind fun _ => yields_liftM stored _

end DebugText
end AssetRecords
