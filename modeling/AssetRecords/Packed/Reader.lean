import AssetRecords.Cursor
import AssetRecords.Schema.Value
/-!
# Reading packed bytes

The shape that is asked for says what the bytes mean.  All bytes are to be used up.
-/
namespace AssetRecords
namespace Packed

def readLeaf (data : Bytes) : LeafType → Reading Leaf
  | .bool => do
    match ← Cursor.u8 data with
    | 0 => return .bool false
    | 1 => return .bool true
    | byte => throw (.malformed (.boolByte byte))
  | .number type => .number <$> Cursor.scalar data type
  | .text => .text <$> Cursor.string16 data

def readCount (L : Limits) (data : Bytes) : Reading Nat := do
  let count := (← Cursor.u32 data).toNat
  L.checkCount count
  return count

def readBuffer (L : Limits) (data : Bytes) : Reading Buffer := do
  let tag ← Cursor.u8 data
  let some type := ScalarType.ofTag? tag | throw (.malformed (.elementTag tag))
  let count ← readCount L data
  let bytes ← Cursor.take data (count * type.size)
  Buffer.ofPayload type count bytes

/-- A value of a shape, with room for so many levels of parts.  The numbers of a block are no level of their own. -/
def readValue (S : Schema) (L : Limits) (data : Bytes) : (room : Nat) → Shape → Reading Value
  | 0, _ => throw (.depthLimit L.maxDepth)
  | room + 1, shape =>
    match shape with
    | .leaf type => .leaf <$> readLeaf data type
    | .enum table _ => do
      let ordinal ← Cursor.u16 data
      return .enum table (← table.ofOrdinal ordinal.toNat)
    | .record name => do
      let fields ← (S.fieldsOf name).mapM fun f => do return (f.key, ← readValue S L data room f.shape)
      return .record name fields
    | .tuple elements => .tuple <$> elements.mapM (readValue S L data room)
    | .vector xs =>
      .tuple <$> Cursor.times (readValue S L data room (.leaf (.number .float32))) xs.length
    | .numbers type => do
      let count ← readCount L data
      let bytes ← Cursor.take data (count * type.size)
      return .numbers type (Buffer.readElements type count bytes)
    | .sequence element => do
      let count ← readCount L data
      .sequence element <$> Cursor.times (readValue S L data room element) count
    | .buffer => .buffer <$> readBuffer L data
    | .optional content => do
      match ← Cursor.u8 data with
      | 0 => return .absent content
      | 1 => .present content <$> readValue S L data room content
      | flag => throw (.malformed (.presenceFlag flag))

def read (S : Schema) (L : Limits) (shape : Shape) (data : Bytes) : Except Error Value :=
  match readValue S L data (L.maxDepth + 1) shape {} with
  | (.ok v, c) =>
    if c.isAtEnd data then .ok v else .error (.malformed (.trailingBytes (c.remaining data) c.pos))
  | (.error e, _) => .error e

/-- The value of a shape that a file stands for; a failure is named after the file. -/
def readContent (S : Schema) (L : Limits) (shape : Shape) (content : Content) : Except Error Value :=
  (read S L shape content.data).mapError (·.named content.path)

end Packed
end AssetRecords
