import AssetRecords.Buffer.Basic
/-!
# What can be done to a buffer

A buffer that is in use changes by operations.  A refused one leaves it as it was, with one exception: a buffer that
cannot be had in a new shape is empty afterwards.  How much memory there is may be another each time.
-/
namespace AssetRecords
namespace Buffer

inductive Operation where
  | reshape (type : ScalarType) (length : Nat) (memory : Nat := memoryLimit)
  | copy (type : ScalarType) (elements : List type.Bits)
  | fill (type : ScalarType) (element : type.Bits)
  | store (index : Nat) (number : Number)
  | put (type : ScalarType) (index : Nat) (element : type.Bits)
  | overwrite (bytes : Bytes)
  | poke (index : Nat) (byte : UInt8)

/-- How a change went.  An index past the last element and a payload of the wrong size are out of range. -/
inductive Outcome where
  | done
  | refused (error : Error)
  | outOfRange
  deriving DecidableEq

/-- The buffer that a computation gives, or the old one and why there is none. -/
def replaceBy (old : Buffer) : Except Error Buffer → Outcome × Buffer
  | .ok b => (.done, b)
  | .error e => (.refused e, old)

def perform (b : Buffer) : Operation → Outcome × Buffer
  | .reshape type length memory => replaceBy {} (zeroed type length memory)
  | .copy type elements => b.replaceBy (b.copy type elements)
  | .fill type element => b.replaceBy (b.fill type element)
  | .store index number =>
    match b.type.narrow number with
    | .error e => (.refused e, b)
    | .ok element => if index < b.length then (.done, b.setElement index element) else (.outOfRange, b)
  | .put type index element =>
    match b.checkType type with
    | .error e => (.refused e, b)
    | .ok () =>
      if index < b.length then (.done, b.splice (index * type.size) (type.bytesOf element)) else (.outOfRange, b)
  | .overwrite bytes => if bytes.length = b.byteSize then (.done, b.withPayload bytes) else (.outOfRange, b)
  | .poke index byte => if index < b.byteSize then (.done, b.splice index [byte]) else (.outOfRange, b)

end Buffer
end AssetRecords
