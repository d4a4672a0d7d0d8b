import AssetRecords.Asset.Grammar
/-!
# Placeholders

```text
Placeholder := name:string16 matrix:mat4 nvertices:u32 vertices:f32[3*nvertices] normals:f32[3*nvertices]
               weights:Weights[nvertices] ntriangles:u32 indices:u32[3*ntriangles]
Weights     := ngroups:u8 (group:u16 weight:f32)[ngroups]
```

Of the groups of a vertex only the first one is kept.
-/
namespace AssetRecords

/-- How much a joint group moves a vertex. -/
structure VertexWeight where
  group : UInt16 := 0
  weight : Single := .zero .single
  deriving DecidableEq

/-- A mesh that stands in for another one and moves with an armature. -/
structure Placeholder where
  name : String := ""
  matrix : Matrix4 := .identity
  vertices : Buffer := {}
  normals : Buffer := {}
  weights : List VertexWeight := []
  indices : Buffer := {}
  deriving DecidableEq

namespace VertexWeight

def readGroup (data : Bytes) : Reading VertexWeight := do
  let group ← Cursor.u16 data
  let weight ← Cursor.single data
  return { group, weight }

/-- The first group of a vertex; without any, the weight is zero. -/
def readFirst (data : Bytes) : Reading VertexWeight := do
  let groupCount := (← Cursor.u8 data).toNat
  let groups ← Cursor.times (readGroup data) groupCount
  return groups.headD {}

def toValue (w : VertexWeight) : Value :=
  .record "VertexWeight" [
    ("group", .ofInt .uint16 w.group.toNat),
    ("weight", .leaf (.number (.ofSingle w.weight)))]

end VertexWeight

namespace Placeholder

def minWeightsSize : Nat := 1

def readData (L : Limits) (data : Bytes) : Reading Placeholder := do
  let name ← Cursor.string16 data
  let matrix ← Asset.matrix4 data
  let vertexCount := (← Cursor.u32 data).toNat
  let vertices ← Asset.buffer L data .float32 (vertexCount * 3)
  let normals ← Asset.buffer L data .float32 (vertexCount * 3)
  Asset.ensureRecords L data vertexCount minWeightsSize
  let weights ← Cursor.times (VertexWeight.readFirst data) vertexCount
  let triangleCount := (← Cursor.u32 data).toNat
  let indices ← Asset.buffer L data .uint32 (triangleCount * 3)
  return { name, matrix, vertices, normals, weights, indices }

def read (L : Limits) (content : Content) : Except Error Placeholder := Asset.readContent (readData L) content

def toValue (p : Placeholder) : Value :=
  .record "Placeholder" [
    ("name", .ofText p.name),
    ("matrix", .ofSingles p.matrix),
    ("vertices", .buffer p.vertices),
    ("normals", .buffer p.normals),
    ("weights", .sequence (.record "VertexWeight") (p.weights.map VertexWeight.toValue)),
    ("indices", .buffer p.indices)]

end Placeholder
end AssetRecords
