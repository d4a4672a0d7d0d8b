import AssetRecords.Scalar.Basic
/-!
# Buffers

A buffer holds many numbers of one type that is known only when it runs.  Its storage comes in words of eight bytes; the
payload is what its elements take of it, and the bytes after the payload are never shown.
-/
namespace AssetRecords

structure Buffer where
  type : ScalarType := .uint8
  length : Nat := 0
  storage : Bytes := []
  deriving DecidableEq

namespace Buffer

instance : Inhabited Buffer := ⟨{}⟩

/-- The least multiple of the word size that is not below a number of bytes. -/
def wordBytes (bytes : Nat) : Nat := (bytes + 7) / 8 * 8

/-- The size of the address space; no count of bytes reaches it. -/
def addressSpace : Nat := UInt64.size

/-- One more than the greatest size of a block. -/
def capacityLimit : Nat := addressSpace / 2

/-- The size of the greatest block that is granted, where no other is told. -/
def memoryLimit : Nat := 0xffffffffffff

def elementSize (b : Buffer) : Nat := b.type.size

def byteSize (b : Buffer) : Nat := b.length * b.elementSize

def payload (b : Buffer) : Bytes := b.storage.take b.byteSize

/-- A buffer of zeros, where blocks of more than `memory` bytes are not granted. -/
def zeroed (type : ScalarType) (length : Nat) (memory : Nat := memoryLimit) : Except Error Buffer :=
  let bytes := length * type.size
  if addressSpace ≤ bytes then .error (.malformed (.bufferOverflow length type))
  else if capacityLimit ≤ wordBytes bytes then .error (.malformed (.capacityOverflow bytes))
  else if memory < bytes then .error (.malformed (.outOfMemory bytes))
  else .ok { type, length, storage := List.replicate (wordBytes bytes) 0 }

/-- A buffer with other bytes for its payload, of which there are as many as before. -/
def withPayload (b : Buffer) (bytes : Bytes) : Buffer :=
  { b with storage := bytes ++ b.storage.drop b.byteSize }

/-- A buffer with other bytes in the place of as many of its payload, from a position on. -/
def splice (b : Buffer) (start : Nat) (bytes : Bytes) : Buffer :=
  b.withPayload (b.payload.take start ++ bytes ++ b.payload.drop (start + bytes.length))

def ofList (type : ScalarType) (elements : List type.Bits) : Buffer :=
  let bytes := elements.flatMap type.bytesOf
  { type, length := elements.length
    storage := bytes ++ List.replicate (wordBytes bytes.length - bytes.length) 0 }

def readElements (type : ScalarType) : Nat → Bytes → List type.Bits
  | 0, _ => []
  | count + 1, bytes => type.bitsOf (bytes.take type.size) :: readElements type count (bytes.drop type.size)

def elements (b : Buffer) : List b.type.Bits := readElements b.type b.length b.payload

def scalars (b : Buffer) : List Scalar := b.elements.map (.mk b.type)

def get? (b : Buffer) (index : Nat) : Option Scalar :=
  if index < b.length then
    some ⟨b.type, b.type.bitsOf ((b.payload.drop (index * b.elementSize)).take b.elementSize)⟩
  else none

def setElement (b : Buffer) (index : Nat) (element : b.type.Bits) : Buffer :=
  let start := index * b.elementSize
  b.withPayload (b.payload.take start ++ b.type.bytesOf element ++ b.payload.drop (start + b.elementSize))

/-- Two buffers show the same: type, length and payload. -/
def same (a b : Buffer) : Bool := a.type == b.type && a.length == b.length && a.payload == b.payload

def checkType (b : Buffer) (type : ScalarType) : Except Error Unit :=
  if type = b.type then .ok () else .error (.typeMismatch type.name b.type.name)

/-- The elements, for a reader that expects them to be of a type. -/
def scalarsOf (b : Buffer) (type : ScalarType) : Except Error (List Scalar) := do
  b.checkType type
  return b.scalars

def copy (b : Buffer) (type : ScalarType) (elements : List type.Bits) : Except Error Buffer := do
  b.checkType type
  if elements.length ≠ b.length then throw (.extentMismatch b.length elements.length)
  return b.withPayload (elements.flatMap type.bytesOf)

def fill (b : Buffer) (type : ScalarType) (element : type.Bits) : Except Error Buffer := do
  b.checkType type
  return b.withPayload ((List.replicate b.length element).flatMap type.bytesOf)

/-- A buffer of a type and the stored forms of numbers in it; the first number that the type does not hold is refused. -/
def ofNumbers (type : ScalarType) (numbers : List Number) : Except Error Buffer := do
  let b ← zeroed type numbers.length
  let elements ← numbers.mapM type.narrow
  return b.withPayload (elements.flatMap type.bytesOf)

/-- A buffer whose payload is the given bytes, of which there are as many as the elements take. -/
def ofPayload (type : ScalarType) (length : Nat) (bytes : Bytes) (memory : Nat := memoryLimit) :
    Except Error Buffer := do
  let b ← zeroed type length memory
  return b.withPayload bytes

end Buffer
end AssetRecords
