import AssetRecords.Buffer.Operation
import AssetRecords.Proofs.Outcome
/-!
# Buffer — the representation of a buffer

A well-formed buffer is determined by its type, its length and its payload (`WellFormed.ext`), and a buffer can be had
for given bytes exactly if there is a well-formed one with that payload (`ofPayload_eq_ok_iff`).  No operation breaks
the representation (`WellFormed.perform`), so that every buffer in use is well-formed.
-/
namespace AssetRecords
namespace Buffer

/-- A block of so many bytes is granted: memory has room for it, and a block can have so many words. -/
def Granted (memory bytes : Nat) : Prop := bytes ≤ memory ∧ wordBytes bytes < capacityLimit

instance (memory bytes : Nat) : Decidable (Granted memory bytes) := inferInstanceAs (Decidable (_ ∧ _))

/-- What holds of every buffer there is: its block was granted, it has as many words as the payload needs, and the bytes
after the payload are zero. -/
structure WellFormed (b : Buffer) (memory : Nat := memoryLimit) : Prop where
  granted : Granted memory b.byteSize
  length_storage : b.storage.length = wordBytes b.byteSize
  padding : b.storage.drop b.byteSize = List.replicate (wordBytes b.byteSize - b.byteSize) 0

theorem le_wordBytes (bytes : Nat) : bytes ≤ wordBytes bytes := by
  unfold wordBytes
  omega

/-- Any block is granted that is within the limit of this library. -/
theorem granted_of_le {bytes : Nat} (h : bytes ≤ memoryLimit) : Granted memoryLimit bytes := by
  have hcap : capacityLimit = 0x8000000000000000 := rfl
  have hmem : memoryLimit = 0xffffffffffff := rfl
  refine ⟨h, ?_⟩
  unfold wordBytes
  omega

/-- What is smaller is granted, too. -/
theorem Granted.of_le {memory bytes bytes' : Nat} (h : Granted memory bytes) (le : bytes' ≤ bytes) :
    Granted memory bytes' := by
  refine ⟨Nat.le_trans le h.1, Nat.lt_of_le_of_lt ?_ h.2⟩
  unfold wordBytes
  omega

theorem zeroed_eq_ok_iff {type : ScalarType} {length memory : Nat} {b : Buffer} :
    zeroed type length memory = .ok b ↔ Granted memory (length * type.size) ∧
      b = { type, length, storage := List.replicate (wordBytes (length * type.size)) 0 } := by
  have hcap : capacityLimit = 0x8000000000000000 := rfl
  have hspace : addressSpace = 0x10000000000000000 := rfl
  have le := le_wordBytes (length * type.size)
  unfold zeroed Granted
  simp only
  generalize length * type.size = n at le
  split
  · exact ⟨nofun, fun ⟨h, _⟩ => by omega⟩
  split
  · exact ⟨nofun, fun ⟨h, _⟩ => by omega⟩
  split
  · exact ⟨nofun, fun ⟨h, _⟩ => by omega⟩
  · exact ⟨fun h => ⟨by omega, by cases h; rfl⟩, fun ⟨_, h⟩ => by rw [h]⟩

section Representation

variable {b : Buffer} {bytes : Bytes} {memory : Nat}

theorem WellFormed.length_payload (h : b.WellFormed memory) : b.payload.length = b.byteSize := by
  rw [payload, List.length_take, h.length_storage]
  exact Nat.min_eq_left (le_wordBytes _)

/-- However much memory there is, no block is greater than a block can be. -/
theorem WellFormed.most (h : b.WellFormed memory) : b.WellFormed capacityLimit where
  granted := ⟨Nat.le_of_lt (Nat.lt_of_le_of_lt (le_wordBytes _) h.granted.2), h.granted.2⟩
  length_storage := h.length_storage
  padding := h.padding

theorem WellFormed.storage_eq (h : b.WellFormed memory) :
    b.storage = b.payload ++ List.replicate (wordBytes b.byteSize - b.byteSize) 0 := by
  rw [← h.padding, payload, List.take_append_drop]

/-- A buffer of zeros is well-formed, and so is whatever its payload becomes. -/
theorem wellFormed_of_zeroed {type : ScalarType} {length : Nat} (h : zeroed type length memory = .ok b) :
    b.WellFormed memory := by
  obtain ⟨granted, rfl⟩ := zeroed_eq_ok_iff.1 h
  exact ⟨granted, List.length_replicate, List.drop_replicate⟩

theorem WellFormed.withPayload (h : b.WellFormed memory) (size : bytes.length = b.byteSize) :
    (b.withPayload bytes).WellFormed memory where
  granted := h.granted
  length_storage := by
    show (bytes ++ b.storage.drop b.byteSize).length = wordBytes b.byteSize
    have := le_wordBytes b.byteSize
    rw [List.length_append, List.length_drop, h.length_storage]
    omega
  padding := by
    show (bytes ++ b.storage.drop b.byteSize).drop b.byteSize = _
    rw [← size, List.drop_left, size, h.padding]
    rfl

theorem payload_withPayload (size : bytes.length = b.byteSize) : (b.withPayload bytes).payload = bytes := by
  show (bytes ++ b.storage.drop b.byteSize).take b.byteSize = bytes
  rw [← size, List.take_left]

/-- A well-formed buffer is its type, its length and its payload. -/
theorem WellFormed.ext {a b : Buffer} (ha : a.WellFormed memory) (hb : b.WellFormed memory) (type : a.type = b.type)
    (length : a.length = b.length) (payload : a.payload = b.payload) : a = b := by
  have size : a.byteSize = b.byteSize := by rw [byteSize, byteSize, elementSize, elementSize, type, length]
  have storage : a.storage = b.storage := by rw [ha.storage_eq, hb.storage_eq, payload, size]
  cases a
  cases b
  simp_all

theorem ofPayload_eq_ok_iff {type : ScalarType} {length : Nat} (size : bytes.length = length * type.size) :
    ofPayload type length bytes memory = .ok b ↔
      b.WellFormed memory ∧ b.type = type ∧ b.length = length ∧ b.payload = bytes := by
  have ofPayload_eq : ofPayload type length bytes memory = (zeroed type length memory).map (·.withPayload bytes) := by
    unfold ofPayload
    cases zeroed type length memory <;> rfl
  rw [ofPayload_eq]
  constructor
  · intro h
    cases hz : zeroed type length memory with
    | error e => rw [hz] at h; cases h
    | ok zeros =>
      rw [hz] at h
      cases h
      have wf := wellFormed_of_zeroed hz
      obtain ⟨-, rfl⟩ := zeroed_eq_ok_iff.1 hz
      exact ⟨wf.withPayload size, rfl, rfl, payload_withPayload size⟩
  · rintro ⟨wf, rfl, rfl, rfl⟩
    have hz := zeroed_eq_ok_iff.2 ⟨wf.granted, rfl⟩
    rw [hz]
    show Except.ok _ = Except.ok b
    congr 1
    exact ((wellFormed_of_zeroed hz).withPayload size).ext wf rfl rfl (payload_withPayload size)

end Representation

/-- A new buffer is well-formed. -/
theorem wellFormed_empty (memory : Nat) : WellFormed {} memory :=
  wellFormed_of_zeroed (zeroed_eq_ok_iff.2 ⟨⟨Nat.zero_le _, by decide⟩, rfl⟩)

section Elements

variable {type : ScalarType}

theorem length_readElements : ∀ (count : Nat) (bytes : Bytes), (readElements type count bytes).length = count
  | 0, _ => rfl
  | count + 1, bytes => congrArg (· + 1) (length_readElements count (bytes.drop type.size))

theorem length_flatMap_bytesOf :
    ∀ elements : List type.Bits, (elements.flatMap type.bytesOf).length = elements.length * type.size
  | [] => (Nat.zero_mul _).symm
  | x :: rest => by
    rw [List.flatMap_cons, List.length_append, ScalarType.length_bytesOf, length_flatMap_bytesOf rest, List.length_cons,
      Nat.succ_mul, Nat.add_comm]

/-- Elements are read back from their bytes. -/
theorem readElements_flatMap : ∀ elements : List type.Bits,
    readElements type elements.length (elements.flatMap type.bytesOf) = elements
  | [] => rfl
  | x :: rest => by
    have length := ScalarType.length_bytesOf type x
    rw [List.flatMap_cons, List.length_cons, readElements, List.take_left' length, List.drop_left' length,
      ScalarType.bitsOf_bytesOf, readElements_flatMap rest]

/-- Bytes are written back from the elements that they hold. -/
theorem flatMap_readElements : ∀ (count : Nat) (bytes : Bytes), bytes.length = count * type.size →
    (readElements type count bytes).flatMap type.bytesOf = bytes
  | 0, bytes, h => by
    rw [Nat.zero_mul, List.length_eq_zero_iff] at h
    rw [h]
    rfl
  | count + 1, bytes, h => by
    rw [Nat.succ_mul] at h
    rw [readElements, List.flatMap_cons, ScalarType.bytesOf_bitsOf, flatMap_readElements count, List.take_append_drop]
    · rw [List.length_drop, h, Nat.add_sub_cancel]
    · rw [List.length_take, h]
      exact Nat.min_eq_left (Nat.le_add_left _ _)

end Elements

theorem WellFormed.flatMap_elements {b : Buffer} {memory : Nat} (h : b.WellFormed memory) :
    b.elements.flatMap b.type.bytesOf = b.payload :=
  flatMap_readElements b.length b.payload h.length_payload

theorem length_elements (b : Buffer) : b.elements.length = b.length := length_readElements _ _

theorem scalars_withPayload {b : Buffer} {elements : List b.type.Bits} (length : elements.length = b.length) :
    (b.withPayload (elements.flatMap b.type.bytesOf)).scalars = elements.map (.mk b.type) := by
  have size : (elements.flatMap b.type.bytesOf).length = b.byteSize := by
    rw [length_flatMap_bytesOf, length]
    rfl
  show (readElements b.type b.length (b.withPayload _).payload).map (Scalar.mk b.type) = _
  rw [payload_withPayload size, ← length, readElements_flatMap]

/-- A buffer of a type can be had for numbers that the type holds. -/
theorem exists_ofNumbers {type : ScalarType} {ns : List Number} {elements : List type.Bits}
    (stored : List.Forall₂ (fun n bits => type.narrow n = .ok bits) ns elements)
    (granted : Granted memoryLimit (ns.length * type.size)) :
    ∃ b, ofNumbers type ns = .ok b ∧ b.length = ns.length ∧ b.scalars = elements.map (.mk type) := by
  let zeros : Buffer :=
    { type, length := ns.length, storage := List.replicate (wordBytes (ns.length * type.size)) 0 }
  have zeroed : zeroed type ns.length = .ok zeros := zeroed_eq_ok_iff.2 ⟨granted, rfl⟩
  refine ⟨zeros.withPayload (elements.flatMap type.bytesOf), ?_, rfl, scalars_withPayload stored.length_eq.symm⟩
  rw [ofNumbers, zeroed, Except.mapM_eq_ok_of_forall₂ stored]
  rfl

/-- A buffer that is had for numbers is of the type and holds what they are narrowed to. -/
theorem exists_of_ofNumbers {type : ScalarType} {ns : List Number} {b : Buffer} (h : ofNumbers type ns = .ok b) :
    b.type = type ∧ b.length = ns.length ∧ ∃ elements : List type.Bits,
      List.Forall₂ (fun n bits => type.narrow n = .ok bits) ns elements ∧ b.scalars = elements.map (.mk type) := by
  obtain ⟨zeros, hzeros, h⟩ := Except.bind_eq_ok_iff.1 h
  obtain ⟨elements, narrowed, ⟨⟩⟩ := Except.bind_eq_ok_iff.1 h
  obtain ⟨-, rfl⟩ := zeroed_eq_ok_iff.1 hzeros
  have stored := Except.forall₂_of_mapM_eq_ok narrowed
  exact ⟨rfl, rfl, elements, stored, scalars_withPayload stored.length_eq.symm⟩

section Storing

variable {b : Buffer} {memory : Nat}

/-- A buffer with other elements in front. -/
def stored (b : Buffer) (front : List b.type.Bits) : Buffer :=
  b.withPayload (front.flatMap b.type.bytesOf ++ b.payload.drop (front.length * b.elementSize))

theorem stored_nil (b : Buffer) : b.stored [] = b := by
  show { b with storage := b.payload.drop (0 * b.elementSize) ++ b.storage.drop b.byteSize } = b
  rw [Nat.zero_mul, List.drop_zero, payload, List.take_append_drop]

theorem WellFormed.stored_all (h : b.WellFormed memory) {elements : List b.type.Bits}
    (length : elements.length = b.length) :
    b.stored elements = b.withPayload (elements.flatMap b.type.bytesOf) := by
  have none : b.payload.drop (elements.length * b.elementSize) = [] := by
    refine List.drop_of_length_le ?_
    rw [h.length_payload, length]
    exact Nat.le_refl _
  rw [stored, none, List.append_nil]

/-- The next element is stored behind those that are. -/
theorem WellFormed.setElement_stored (h : b.WellFormed memory) {front : List b.type.Bits} (e : b.type.Bits)
    (room : front.length < b.length) : (b.stored front).setElement front.length e = b.stored (front ++ [e]) := by
  have start : (front.flatMap b.type.bytesOf).length = front.length * b.elementSize := length_flatMap_bytesOf front
  have le : front.length * b.elementSize ≤ b.byteSize := Nat.mul_le_mul_right _ (Nat.le_of_lt room)
  have size : (front.flatMap b.type.bytesOf ++ b.payload.drop (front.length * b.elementSize)).length = b.byteSize := by
    rw [List.length_append, start, List.length_drop, h.length_payload, Nat.add_sub_cancel' le]
  have front' : (b.stored front).payload.take (front.length * b.elementSize) = front.flatMap b.type.bytesOf := by
    rw [stored, payload_withPayload size, List.take_left' start]
  have back : (b.stored front).payload.drop (front.length * b.elementSize + b.elementSize) =
      b.payload.drop ((front ++ [e]).length * b.elementSize) := by
    rw [stored, payload_withPayload size, ← List.drop_drop, List.drop_left' start, List.drop_drop, List.length_append,
      List.length_singleton, Nat.succ_mul]
  show (b.stored front).withPayload ((b.stored front).payload.take (front.length * b.elementSize) ++ b.type.bytesOf e ++
    (b.stored front).payload.drop (front.length * b.elementSize + b.elementSize)) = _
  rw [front', back]
  show { b with storage := _ ++ (_ ++ b.storage.drop b.byteSize).drop b.byteSize } = _
  rw [List.drop_left' size, stored, Buffer.withPayload, List.flatMap_append]
  simp

/-- Numbers are stored behind one another. -/
theorem ofNumbers_eq {type : ScalarType} {ns : List Number} (h : zeroed type ns.length = .ok b) :
    ofNumbers type ns = (do return b.stored (← ns.mapM b.type.narrow)) := by
  have wf := wellFormed_of_zeroed h
  rw [ofNumbers, h]
  obtain ⟨-, rfl⟩ := zeroed_eq_ok_iff.1 h
  show (ns.mapM type.narrow >>= _) = (ns.mapM type.narrow >>= _)
  cases narrowed : ns.mapM type.narrow with
  | error e => rfl
  | ok elements =>
    have length := (Except.forall₂_of_mapM_eq_ok narrowed).length_eq.symm
    exact congrArg Except.ok (wf.stored_all length).symm

end Storing

/-- The buffer of a list is well-formed if a block of its size is granted. -/
theorem wellFormed_ofList {type : ScalarType} {memory : Nat} {elements : List type.Bits}
    (granted : Granted memory (elements.length * type.size)) : (ofList type elements).WellFormed memory := by
  have size := length_flatMap_bytesOf elements
  refine ⟨granted, ?_, ?_⟩
  · show (elements.flatMap type.bytesOf ++ List.replicate _ 0).length = wordBytes (elements.length * type.size)
    have := le_wordBytes (elements.length * type.size)
    rw [List.length_append, List.length_replicate, size]
    omega
  · show (elements.flatMap type.bytesOf ++ List.replicate _ 0).drop (elements.length * type.size) =
      List.replicate (wordBytes (elements.length * type.size) - elements.length * type.size) 0
    rw [List.drop_left' size, size]

section Changes

variable {b : Buffer} {memory : Nat}

theorem checkType_eq_ok_iff {type : ScalarType} : b.checkType type = .ok () ↔ type = b.type := by
  unfold checkType
  split
  · exact ⟨fun _ => ‹_›, fun _ => rfl⟩
  · exact ⟨nofun, fun h => absurd h ‹_›⟩

theorem WellFormed.fill {filled : Buffer} {type : ScalarType} {element : type.Bits} (h : b.WellFormed memory)
    (hf : b.fill type element = .ok filled) : filled.WellFormed memory := by
  obtain ⟨_, htype, ⟨⟩⟩ := Except.bind_eq_ok_iff.1 hf
  obtain rfl := checkType_eq_ok_iff.1 htype
  exact h.withPayload (by rw [length_flatMap_bytesOf, List.length_replicate]; rfl)

theorem WellFormed.copy {copied : Buffer} {type : ScalarType} {elements : List type.Bits} (h : b.WellFormed memory)
    (hc : b.copy type elements = .ok copied) : copied.WellFormed memory := by
  obtain ⟨_, htype, hc⟩ := Except.bind_eq_ok_iff.1 hc
  obtain rfl := checkType_eq_ok_iff.1 htype
  by_cases extent : elements.length = b.length
  · rw [if_neg (fun h => h extent)] at hc
    cases hc
    exact h.withPayload (by rw [length_flatMap_bytesOf, extent]; rfl)
  · rw [if_pos extent] at hc
    cases hc

theorem WellFormed.splice {start : Nat} {bytes : Bytes} (h : b.WellFormed memory)
    (inside : start + bytes.length ≤ b.byteSize) : (b.splice start bytes).WellFormed memory := by
  refine h.withPayload ?_
  rw [List.length_append, List.length_append, List.length_take, List.length_drop, h.length_payload]
  omega

/-- The bytes of an element are within the payload. -/
theorem stop_le_byteSize {index : Nat} (inside : index < b.length) :
    index * b.elementSize + b.elementSize ≤ b.byteSize := by
  rw [← Nat.succ_mul]
  exact Nat.mul_le_mul_right _ inside

theorem WellFormed.setElement {index : Nat} {element : b.type.Bits} (h : b.WellFormed memory)
    (inside : index < b.length) : (b.setElement index element).WellFormed memory := by
  have spliced : b.setElement index element = b.splice (index * b.elementSize) (b.type.bytesOf element) := by
    rw [Buffer.setElement, Buffer.splice, ScalarType.length_bytesOf]
    rfl
  rw [spliced]
  refine h.splice ?_
  rw [ScalarType.length_bytesOf]
  exact stop_le_byteSize inside

/-- **No change breaks the representation of a buffer**, whether it is made or refused and however much memory there
is. -/
theorem WellFormed.perform (h : b.WellFormed capacityLimit) (operation : Operation) :
    (b.perform operation).2.WellFormed capacityLimit := by
  have replaced : ∀ (old : Buffer) (result : Except Error Buffer), old.WellFormed capacityLimit →
      (∀ new, result = .ok new → new.WellFormed capacityLimit) →
        (replaceBy old result).2.WellFormed capacityLimit := by
    intro old result hold hnew
    cases result with
    | error e => exact hold
    | ok new => exact hnew new rfl
  cases operation with
  | reshape type length memory => exact replaced _ _ (wellFormed_empty _) fun _ made => (wellFormed_of_zeroed made).most
  | copy type elements => exact replaced _ _ h fun _ => h.copy
  | fill type element => exact replaced _ _ h fun _ => h.fill
  | store index number =>
    rw [Buffer.perform]
    cases b.type.narrow number with
    | error e => exact h
    | ok element =>
      by_cases inside : index < b.length
      · simpa only [if_pos inside] using h.setElement inside
      · simpa only [if_neg inside] using h
  | put type index element =>
    rw [Buffer.perform]
    cases checked : b.checkType type with
    | error e => exact h
    | ok _ =>
      obtain rfl := checkType_eq_ok_iff.1 checked
      by_cases inside : index < b.length
      · have stop := stop_le_byteSize inside
        simpa only [if_pos inside] using h.splice (by rw [ScalarType.length_bytesOf]; exact stop)
      · simpa only [if_neg inside] using h
  | overwrite bytes =>
    rw [Buffer.perform]
    by_cases size : bytes.length = b.byteSize
    · simpa only [if_pos size] using h.withPayload size
    · simpa only [if_neg size] using h
  | poke index byte =>
    rw [Buffer.perform]
    by_cases inside : index < b.byteSize
    · simpa only [if_pos inside] using h.splice inside
    · simpa only [if_neg inside] using h

end Changes
end Buffer
end AssetRecords
