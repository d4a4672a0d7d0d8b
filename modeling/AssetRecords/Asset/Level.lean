import AssetRecords.Asset.Grammar
/-!
# Levels

```text
Level := name:string16 nmeshes:u16 Mesh[nmeshes]
Mesh  := name:string16 matrix:mat4 nvertices:u32 vertices:f32[3*nvertices] normals:f32[3*nvertices]
         has_uvs:u8 uvs:f32[2*nvertices]? ntriangles:u32 indices:u32[3*ntriangles]
```
-/
namespace AssetRecords

/-- A mesh: positions and normals of three numbers for each vertex, texture coordinates of two if there are any, and
three indices for each triangle. -/
structure Mesh where
  name : String
  matrix : Matrix4
  vertices : Buffer
  normals : Buffer
  uvs : Option Buffer
  indices : Buffer
  deriving DecidableEq

structure Level where
  name : String := ""
  meshes : List Mesh := []
  deriving DecidableEq

namespace Mesh

def vertexCount (m : Mesh) : Nat := m.vertices.length / 3
def triangleCount (m : Mesh) : Nat := m.indices.length / 3

def readData (L : Limits) (data : Bytes) : Reading Mesh := do
  let name ← Cursor.string16 data
  let matrix ← Asset.matrix4 data
  let vertexCount := (← Cursor.u32 data).toNat
  let vertices ← Asset.buffer L data .float32 (vertexCount * 3)
  let normals ← Asset.buffer L data .float32 (vertexCount * 3)
  let uvs ← if (← Cursor.u8 data) = 0 then pure none else some <$> Asset.buffer L data .float32 (vertexCount * 2)
  let triangleCount := (← Cursor.u32 data).toNat
  let indices ← Asset.buffer L data .uint32 (triangleCount * 3)
  return { name, matrix, vertices, normals, uvs, indices }

def toValue (m : Mesh) : Value :=
  .record "Mesh" [
    ("name", .ofText m.name),
    ("matrix", .ofSingles m.matrix),
    ("vertices", .buffer m.vertices),
    ("normals", .buffer m.normals),
    ("uvs", m.uvs.elim (.absent .buffer) fun uvs => .present .buffer (.buffer uvs)),
    ("indices", .buffer m.indices)]

end Mesh

namespace Level

def readData (L : Limits) (data : Bytes) : Reading Level := do
  let name ← Cursor.string16 data
  let meshCount := (← Cursor.u16 data).toNat
  let meshes ← Cursor.times (Mesh.readData L data) meshCount
  return { name, meshes }

def read (L : Limits) (content : Content) : Except Error Level := Asset.readContent (readData L) content

def toValue (l : Level) : Value :=
  .record "Level" [
    ("name", .ofText l.name),
    ("meshes", .sequence (.record "Mesh") (l.meshes.map Mesh.toValue))]

end Level
end AssetRecords
