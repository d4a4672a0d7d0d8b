import AssetRecords.Asset.Geometry
import AssetRecords.Cursor
/-!
# Parts of the asset formats

What the formats of armatures, levels and placeholders have in common.  A count that a file declares is held against the
limits, and the bytes that it promises are looked for before anything is made for them.
-/
namespace AssetRecords
namespace Asset

/-- Refuses a number of records, each of at least so many bytes, that the data cannot hold any more. -/
def ensureRecords (L : Limits) (data : Bytes) (count size : Nat) : Reading Unit := do
  L.checkCount count
  let c ← get
  if c.remaining data < count * size then throw (.unexpectedEnd c.pos (count * size) data.length)

def buffer (L : Limits) (data : Bytes) (type : ScalarType) (count : Nat) : Reading Buffer := do
  L.checkCount count
  Cursor.buffer data type count

def vec3 (data : Bytes) : Reading Vec3 := Cursor.singles data 3
def quaternion (data : Bytes) : Reading Quaternion := Cursor.singles data 4
def matrix4 (data : Bytes) : Reading Matrix4 := Cursor.singles data 16

/-- What a file holds at its front.  Bytes after it are passed over; a failure is named after the file. -/
def readContent {α : Type} (read : Bytes → Reading α) (content : Content) : Except Error α :=
  (read content.data {}).1.mapError (·.named content.path)

end Asset
end AssetRecords
