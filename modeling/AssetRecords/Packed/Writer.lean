import AssetRecords.Schema.Value
/-!
# Writing packed bytes

A value is written by position, without keys and without padding: a truth value as one byte, a number as its bytes, a
text behind its length of two bytes, an enum as its position in two bytes, records and tuples as their parts in order, a
sequence behind its length of four bytes, a buffer behind the tag of its element type and its length, an optional behind
a byte that says whether it is present.
-/
namespace AssetRecords
namespace Packed

def count (size n : Nat) (what : String) : Except Error Bytes :=
  if n < Nat.pow 256 size then .ok (littleEndian size n) else .error (.inexpressible (.tooLarge what n))

def writeLeaf : Leaf → Except Error Bytes
  | .bool b => .ok [if b then 1 else 0]
  | .number n => .ok n.toBytes
  | .text s => do
    let bytes := Utf8.encode s.toList
    return (← count 2 bytes.length "string length") ++ bytes

def writeBuffer (b : Buffer) : Except Error Bytes := do
  return b.type.tag :: (← count 4 b.length "buffer length") ++ b.payload

mutual

/-- The packed bytes of a value.  Of several parts that cannot be written the first one is reported. -/
def write : Value → Except Error Bytes
  | .leaf l => writeLeaf l
  | .enum table variant => do count 2 (← table.ordinal variant) "enum ordinal"
  | .record _ fields => writeFields fields
  | .tuple elements => writeAll elements
  | .numbers type elements => do
    return (← count 4 elements.length "sequence length") ++ elements.flatMap type.bytesOf
  | .sequence _ elements => do return (← count 4 elements.length "sequence length") ++ (← writeAll elements)
  | .buffer b => writeBuffer b
  | .absent _ => .ok [0]
  | .present _ v => do return 1 :: (← write v)

def writeFields : List (String × Value) → Except Error Bytes
  | [] => .ok []
  | (_, v) :: rest => do return (← write v) ++ (← writeFields rest)

def writeAll : List Value → Except Error Bytes
  | [] => .ok []
  | v :: rest => do return (← write v) ++ (← writeAll rest)

end

end Packed
end AssetRecords
