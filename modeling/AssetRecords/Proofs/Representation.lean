import AssetRecords.Proofs.Buffer
/-!
# Representation — a buffer in use

A buffer in use is one that was made empty or of a list, after a run of operations (`Initial`, `after`).  Whatever the
run was, and whichever of its operations failed, the storage fits the payload and the payload can be seen as bytes and
as elements (`Sound`), an operation that fails changes nothing or leaves an empty buffer, and two buffers that show the
same are the same (`representation_kept`).
-/
namespace AssetRecords

theorem ScalarType.size_pos (t : ScalarType) : 0 < t.size := by cases t <;> decide

/-- Every element stands at a multiple of its size if words of eight bytes do. -/
theorem ScalarType.size_dvd (t : ScalarType) : t.size ∣ 8 := by cases t <;> decide

namespace Buffer

/-- The buffers that there are to begin with.  A buffer of a list is one that a block can hold. -/
inductive Initial : Buffer → Prop where
  | empty : Initial {}
  | ofList {type : ScalarType} {elements : List type.Bits} :
    wordBytes (elements.length * type.size) < capacityLimit → Initial (.ofList type elements)

/-- A buffer after a run of operations, of which any may fail. -/
def after (b : Buffer) (operations : List Operation) : Buffer := operations.foldl (fun b o => (b.perform o).2) b

theorem Initial.wellFormed {b : Buffer} (h : Initial b) : b.WellFormed capacityLimit := by
  cases h with
  | empty => exact wellFormed_empty _
  | ofList small => exact wellFormed_ofList ⟨Nat.le_of_lt (Nat.lt_of_le_of_lt (le_wordBytes _) small), small⟩

/-- Every buffer in use is well-formed. -/
theorem WellFormed.after : ∀ (operations : List Operation) {b : Buffer}, b.WellFormed capacityLimit →
    (b.after operations).WellFormed capacityLimit
  | [], _, h => h
  | operation :: rest, _, h => WellFormed.after rest (h.perform operation)

/-!
## Views
-/

/-- The bytes that are shown, if the storage has so many. -/
def bytes? (b : Buffer) : Option Bytes :=
  if b.byteSize ≤ b.storage.length then some (b.storage.take b.byteSize) else none

/-- Bytes at an address as elements of a type: elements stand at multiples of their size, and the bytes are used up. -/
def cast? (type : ScalarType) (address : Nat) (bytes : Bytes) : Option (List type.Bits) :=
  if address % type.size = 0 ∧ bytes.length % type.size = 0 then
    some (readElements type (bytes.length / type.size) bytes)
  else none

/-- The elements that are shown, where the storage is at an address. -/
def view? (b : Buffer) (address : Nat) : Option (List b.type.Bits) := b.bytes?.bind (cast? b.type address)

/-- What a user of a buffer relies on.  Its size is a word, its storage is the payload and less than a word of eight
bytes more, and wherever words of eight bytes can be, the payload is seen as the elements. -/
structure Sound (b : Buffer) : Prop where
  size : (UInt64.ofNat b.elementSize * UInt64.ofNat b.length).toNat = b.byteSize
  storage : 8 ∣ b.storage.length ∧ b.byteSize ≤ b.storage.length ∧ b.storage.length < b.byteSize + 8
  bytes : b.bytes? = some b.payload ∧ b.payload.length = b.byteSize
  elements : ∀ address, 8 ∣ address → b.view? address = some b.elements
  length : b.elements.length = b.length
  payload : b.elements.flatMap b.type.bytesOf = b.payload

section Views

variable {b : Buffer} {memory : Nat}

theorem WellFormed.toNat_size (h : b.WellFormed memory) :
    (UInt64.ofNat b.elementSize * UInt64.ofNat b.length).toNat = b.byteSize := by
  have granted : b.length * b.elementSize < 0x8000000000000000 := Nat.lt_of_le_of_lt (le_wordBytes _) h.granted.2
  have positive : 0 < b.elementSize := b.type.size_pos
  have few : b.length < 0x8000000000000000 := Nat.lt_of_le_of_lt (Nat.le_mul_of_pos_right _ positive) granted
  have small : b.elementSize ≤ 8 := Nat.le_of_dvd (by decide) (b.type.size_dvd)
  have word : b.elementSize % 2 ^ 64 = b.elementSize ∧ b.length % 2 ^ 64 = b.length :=
    ⟨Nat.mod_eq_of_lt (by omega), Nat.mod_eq_of_lt (by omega)⟩
  rw [UInt64.toNat_mul, UInt64.toNat_ofNat', UInt64.toNat_ofNat', word.1, word.2, Nat.mul_comm]
  exact Nat.mod_eq_of_lt (Nat.lt_trans granted (by decide))

theorem WellFormed.bytes?_eq (h : b.WellFormed memory) : b.bytes? = some b.payload :=
  if_pos (h.length_storage ▸ le_wordBytes b.byteSize)

theorem WellFormed.view?_eq (h : b.WellFormed memory) {address : Nat} (words : 8 ∣ address) :
    b.view? address = some b.elements := by
  have aligned : address % b.type.size = 0 := Nat.mod_eq_zero_of_dvd (Nat.dvd_trans (b.type.size_dvd) words)
  have whole : b.payload.length = b.length * b.type.size := h.length_payload
  rw [view?, h.bytes?_eq, Option.bind_some, cast?, whole, Nat.mul_mod_left, Nat.mul_div_cancel _ (b.type.size_pos),
    if_pos ⟨aligned, rfl⟩]
  rfl

theorem WellFormed.sound (h : b.WellFormed memory) : b.Sound where
  size := h.toNat_size
  storage := by
    rw [h.length_storage, wordBytes]
    exact ⟨Nat.dvd_mul_left _ _, by omega, by omega⟩
  bytes := ⟨h.bytes?_eq, h.length_payload⟩
  elements _ words := h.view?_eq words
  length := b.length_elements
  payload := h.flatMap_elements

end Views

/-!
## Equality
-/

theorem same_iff {a b : Buffer} : a.same b = true ↔ a.type = b.type ∧ a.length = b.length ∧ a.payload = b.payload := by
  rw [same, Bool.and_eq_true, Bool.and_eq_true, beq_iff_eq, beq_iff_eq, beq_iff_eq, and_assoc]

/-- Nothing tells two buffers apart that show the same. -/
theorem WellFormed.same_iff_eq {a b : Buffer} {memory : Nat} (ha : a.WellFormed memory) (hb : b.WellFormed memory) :
    a.same b = true ↔ a = b := by
  rw [same_iff]
  constructor
  · rintro ⟨type, length, payload⟩
    exact ha.ext hb type length payload
  · rintro rfl
    exact ⟨rfl, rfl, rfl⟩

/-!
## Failures
-/

/-- Whether an operation gives a buffer another shape. -/
def Operation.isReshape : Operation → Bool
  | reshape _ _ _ => true
  | _ => false

theorem replaceBy_of_failed {old : Buffer} {result : Except Error Buffer} (failed : (replaceBy old result).1 ≠ .done) :
    (replaceBy old result).2 = old := by
  cases result with
  | error e => rfl
  | ok new => exact absurd rfl failed

theorem guarded_of_failed {p : Prop} [Decidable p] {old new : Buffer}
    (failed : (if p then (Outcome.done, new) else (.outOfRange, old)).1 ≠ .done) :
    (if p then (Outcome.done, new) else (.outOfRange, old)).2 = old := by
  by_cases inside : p
  · exact absurd (by rw [if_pos inside]) failed
  · rw [if_neg inside]

/-- **An operation that fails changes nothing**, but that a buffer which cannot be had in a new shape is empty. -/
theorem perform_of_failed (b : Buffer) {o : Operation} (failed : (b.perform o).1 ≠ .done) :
    (b.perform o).2 = if o.isReshape then {} else b := by
  cases o with
  | reshape type length memory => exact replaceBy_of_failed failed
  | copy type elements => exact replaceBy_of_failed failed
  | fill type element => exact replaceBy_of_failed failed
  | overwrite bytes => exact guarded_of_failed failed
  | poke index byte => exact guarded_of_failed failed
  | store index number =>
    rw [perform] at failed ⊢
    cases narrowed : b.type.narrow number with
    | error e => rfl
    | ok element =>
      rw [narrowed] at failed
      exact guarded_of_failed failed
  | put type index element =>
    rw [perform] at failed ⊢
    cases checked : b.checkType type with
    | error e => rfl
    | ok _ =>
      rw [checked] at failed
      exact guarded_of_failed failed

/-!
## New shapes
-/

theorem ofLittleEndian_replicate_zero : ∀ count : Nat, ofLittleEndian (List.replicate count 0) = 0
  | 0 => rfl
  | count + 1 => by
    rw [List.replicate_succ, ofLittleEndian, ofLittleEndian_replicate_zero count]
    rfl

/-- Bytes of zero hold elements of zero. -/
theorem readElements_replicate_zero (type : ScalarType) :
    ∀ count : Nat, readElements type count (List.replicate (count * type.size) 0) = List.replicate count 0
  | 0 => rfl
  | count + 1 => by
    have rest : (count + 1) * type.size - type.size = count * type.size := by rw [Nat.succ_mul, Nat.add_sub_cancel]
    have first : min type.size ((count + 1) * type.size) = type.size :=
      Nat.min_eq_left (Nat.le_mul_of_pos_left _ (Nat.succ_pos count))
    have zero : type.bitsOf (List.replicate type.size 0) = 0 := by
      rw [ScalarType.bitsOf, ofLittleEndian_replicate_zero]
      rfl
    rw [readElements, List.take_replicate, List.drop_replicate, rest, first, zero, List.replicate_succ,
      readElements_replicate_zero type count]

/-- **A new shape has nothing but zeros**, whatever was there before. -/
theorem reshaped {b new : Buffer} {type : ScalarType} {length memory : Nat}
    (done : b.perform (.reshape type length memory) = (.done, new)) : new.type = type ∧ new.length = length ∧
      (∀ byte ∈ new.storage, byte = 0) ∧ ∀ element ∈ new.elements, element = 0 := by
  have made : zeroed type length memory = .ok new := by
    rw [perform] at done
    cases made : zeroed type length memory with
    | error e => rw [made] at done; cases done
    | ok zeros => rw [made] at done; cases done; rfl
  obtain ⟨-, rfl⟩ := zeroed_eq_ok_iff.1 made
  refine ⟨rfl, rfl, fun byte hbyte => List.eq_of_mem_replicate hbyte, fun element helement => ?_⟩
  have zeros : elements { type, length, storage := List.replicate (wordBytes (length * type.size)) 0 } =
      List.replicate length 0 := by
    show readElements type length ((List.replicate _ 0).take (length * type.size)) = _
    rw [List.take_replicate, Nat.min_eq_left (le_wordBytes _), readElements_replicate_zero]
  rw [zeros] at helement
  exact List.eq_of_mem_replicate helement

/-- **A buffer keeps its representation over any run of operations**, whatever memory there is at any time.  Its size is
a word, its storage is its payload in whole words, and its payload can be seen as bytes and as elements.  Buffers that
show the same type, length and payload are equal in all that they are.  What fails changes nothing, or leaves the empty
buffer where another shape was asked for; where there is one, it has nothing but zeros. -/
theorem representation_kept {b : Buffer} (h : Initial b) (operations : List Operation) :
    (b.after operations).Sound ∧
    (∀ c, Initial c → ∀ others, ((b.after operations).same (c.after others) = true ↔
        (b.after operations).type = (c.after others).type ∧ (b.after operations).length = (c.after others).length ∧
          (b.after operations).payload = (c.after others).payload) ∧
      ((b.after operations).same (c.after others) = true ↔ b.after operations = c.after others)) ∧
    (∀ o, ((b.after operations).perform o).1 ≠ .done →
      ((b.after operations).perform o).2 = if o.isReshape then {} else b.after operations) ∧
    ∀ type length memory new, (b.after operations).perform (.reshape type length memory) = (.done, new) →
      new.type = type ∧ new.length = length ∧ (∀ byte ∈ new.storage, byte = 0) ∧
        ∀ element ∈ new.elements, element = 0 := by
  have wf := WellFormed.after operations h.wellFormed
  refine ⟨wf.sound, fun c hc others => ⟨same_iff, ?_⟩, fun o => perform_of_failed _, fun _ _ _ _ => reshaped⟩
  exact wf.same_iff_eq (WellFormed.after others hc.wellFormed)

/-- Three elements of two bytes each, of which one is replaced and a byte of another one; then a number that is too
large for an element, more elements than there can be, five elements of one byte where only four bytes are granted, and
the same where there is room for them. -/
theorem representation_kept_triple :
    let used := after (.ofList .uint16 [1, 2, 3]) [.put .uint16 1 0xffff, .poke 0 7]
    Initial (.ofList .uint16 [1, 2, 3]) ∧ used.Sound ∧ (used.perform (.store 2 (.uint 0x10000))).2 = used ∧
      (used.perform (.reshape .uint64 0xffffffffffffffff)).2 = {} ∧ (used.perform (.reshape .uint8 5 4)).2 = {} ∧
      ∀ element ∈ (used.perform (.reshape .uint8 5)).2.elements, element = 0 := by
  have initial : Initial (.ofList .uint16 [1, 2, 3]) := .ofList (by decide)
  obtain ⟨sound, -, failed, zeros⟩ := representation_kept initial [.put .uint16 1 0xffff, .poke 0 7]
  refine ⟨initial, sound, failed _ (by decide +kernel), failed _ (by decide +kernel), failed _ (by decide +kernel), ?_⟩
  exact (zeros .uint8 5 memoryLimit _ rfl).2.2.2

end Buffer
end AssetRecords
