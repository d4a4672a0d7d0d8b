import AssetRecords.Proofs.Asset.Wire
/-!
# Placeholder — of the groups of a vertex the first one is kept

A file of a placeholder is written from a mesh with all the groups of each vertex (`SkinnedMesh.wire`).  It is decoded
to the same mesh with the first group of each vertex, whatever the other groups are (`keeps_first_groups`).
-/
namespace AssetRecords

open Asset (FitsText textBytes singlesBytes text_eq_ok_iff single_eq_ok_iff ensureRecords_eq_ok_iff readSurface
  readTriangles readSurface_eq_ok_iff readTriangles_eq_ok_iff)
open Cursor (Passes)

namespace VertexWeight

def bytes (w : VertexWeight) : Bytes := littleEndian 2 w.group.toNat ++ Asset.singleBytes w.weight

/-- The groups of a vertex behind their number. -/
def bytesOfAll (ws : List VertexWeight) : Bytes := [UInt8.ofNat ws.length] ++ ws.flatMap bytes

/-- The weight that is kept of a vertex; without a group it is zero, and in group zero. -/
def kept (ws : List VertexWeight) : VertexWeight := ws.headD ⟨0, .zero .single⟩

section Reading

variable {data : Bytes} {c c' : Cursor}

theorem readGroup_eq_ok_iff {w : VertexWeight} : readGroup data c = (.ok w, c') ↔ Passes data c w.bytes c' := by
  rw [readGroup, Reading.bind_eq_ok_iff]
  constructor
  · rintro ⟨group, c₁, hgroup, h⟩
    obtain ⟨weight, c₂, hweight, h⟩ := Reading.bind_eq_ok_iff.1 h
    obtain ⟨rfl, rfl⟩ := Reading.pure_eq_ok_iff.1 h
    exact (Cursor.u16_eq_ok_iff.1 hgroup).append (single_eq_ok_iff.1 hweight)
  · intro passes
    obtain ⟨c₁, group, weight⟩ := passes.split
    refine ⟨w.group, c₁, Cursor.u16_eq_ok_iff.2 group, ?_⟩
    exact Reading.bind_eq_ok_iff.2 ⟨w.weight, c', single_eq_ok_iff.2 weight, rfl⟩

/-- All the groups of a vertex are passed, and the first one is kept. -/
theorem reads_first : Asset.Reads data (readFirst data) bytesOfAll fun ws w => ws.length ≤ 255 ∧ kept ws = w := by
  intro c c' w _
  rw [readFirst, Reading.bind_eq_ok_iff]
  constructor
  · rintro ⟨count, c₁, hcount, h⟩
    obtain ⟨ws, c₂, hws, h⟩ := Reading.bind_eq_ok_iff.1 h
    obtain ⟨rfl, rfl⟩ := Reading.pure_eq_ok_iff.1 h
    have front := Cursor.u8_eq_ok_iff.1 hcount
    obtain ⟨length, back⟩ := (Asset.times_eq_ok_iff_of_bytes readGroup_eq_ok_iff front.stop_le).1 hws
    have few : ws.length ≤ 255 := by
      have := count.toNat_lt
      omega
    refine ⟨ws, ⟨few, rfl⟩, ?_⟩
    rw [bytesOfAll, length, UInt8.ofNat_toNat]
    exact front.append back
  · rintro ⟨ws, ⟨few, rfl⟩, passes⟩
    obtain ⟨c₁, front, back⟩ := passes.split
    have number : (UInt8.ofNat ws.length).toNat = ws.length := by
      rw [UInt8.toNat_ofNat']
      exact Nat.mod_eq_of_lt (Nat.lt_succ_of_le few)
    have all := (Asset.times_eq_ok_iff_of_bytes readGroup_eq_ok_iff front.stop_le).2 ⟨rfl, back⟩
    refine ⟨_, c₁, Cursor.u8_eq_ok_iff.2 front, ?_⟩
    rw [number]
    exact Reading.bind_eq_ok_iff.2 ⟨ws, c', all, rfl⟩

end Reading

/-- There is a byte for each vertex, for the number of its groups. -/
theorem length_le_bytesOfAll (groups : List (List VertexWeight)) :
    groups.length ≤ (groups.flatMap bytesOfAll).length := by
  induction groups with
  | nil => exact Nat.le_refl 0
  | cons ws groups ih =>
    rw [List.flatMap_cons, List.length_append, List.length_cons, bytesOfAll, List.length_append, List.length_singleton]
    omega

end VertexWeight

open VertexWeight (bytesOfAll kept)

/-- A mesh with all the groups that move each vertex. -/
structure SkinnedMesh where
  name : String
  matrix : Matrix4
  vertices : Buffer
  normals : Buffer
  groups : List (List VertexWeight)
  indices : Buffer

namespace SkinnedMesh

def surface (m : SkinnedMesh) : Asset.Surface := { m with }

/-- The bytes of a mesh as the grammar of placeholders has them. -/
def wire (m : SkinnedMesh) : Bytes :=
  textBytes m.name ++ singlesBytes m.matrix ++ littleEndian 4 m.groups.length ++ m.vertices.payload ++
    m.normals.payload ++ m.groups.flatMap bytesOfAll ++ littleEndian 4 (m.indices.length / 3) ++ m.indices.payload

/-- A mesh that a file can hold: three numbers for each position and normal, at most 255 groups for each vertex, and
three indices for each triangle. -/
structure Shaped (L : Limits) (m : SkinnedMesh) : Prop where
  surface : m.surface.Shaped L m.groups.length
  groups : ∀ ws ∈ m.groups, ws.length ≤ 255
  triangles : ∃ count, Asset.Triangles L count m.indices

/-- What is kept of a mesh: the first group of each vertex. -/
def placeholder (m : SkinnedMesh) : Placeholder := { m with weights := m.groups.map kept }

theorem Shaped.wire_eq {L : Limits} {m : SkinnedMesh} (h : m.Shaped L) :
    m.wire = m.surface.bytes ++ (m.groups.flatMap bytesOfAll ++ Asset.triangleBytes m.indices) := by
  simp only [wire, Asset.Surface.bytes, Asset.triangleBytes, h.surface.vertices.length_div, List.append_assoc]
  rfl

end SkinnedMesh

namespace Placeholder

section Reading

variable {L : Limits} {data : Bytes} {c c' : Cursor}

/-- A placeholder is a surface, a weight for each vertex, and triangles. -/
theorem readData_eq : readData L data = (do
    let (count, s) ← readSurface L data
    Asset.ensureRecords L data count minWeightsSize
    let weights ← Cursor.times (VertexWeight.readFirst data) count
    let indices ← readTriangles L data
    return { s with weights, indices }) := by
  simp only [readData, readSurface, readTriangles, bind_assoc, pure_bind]

/-- **A placeholder is read exactly where the bytes of a mesh stand** of which it is what is kept. -/
theorem readData_eq_ok_iff {p : Placeholder} : readData L data c = (.ok p, c') ↔
    ∃ m : SkinnedMesh, m.Shaped L ∧ m.placeholder = p ∧ Passes data c m.wire c' := by
  rw [readData_eq]
  constructor
  · intro h
    obtain ⟨⟨count, s⟩, c₁, hsurface, h⟩ := Reading.bind_eq_ok_iff.1 h
    obtain ⟨⟨⟩, c₂, hlooked, h⟩ := Reading.bind_eq_ok_iff.1 h
    obtain ⟨weights, c₃, hweights, h⟩ := Reading.bind_eq_ok_iff.1 h
    obtain ⟨indices, c₄, hindices, h⟩ := Reading.bind_eq_ok_iff.1 h
    obtain ⟨rfl, rfl⟩ := Reading.pure_eq_ok_iff.1 h
    obtain ⟨shaped, passed₁⟩ := readSurface_eq_ok_iff.1 hsurface
    obtain ⟨-, -, rfl⟩ := ensureRecords_eq_ok_iff.1 hlooked
    obtain ⟨groups, ⟨rfl, each⟩, passed₂⟩ := (VertexWeight.reads_first.times _ passed₁.stop_le).1 hweights
    obtain ⟨triangles, passed₃⟩ := readTriangles_eq_ok_iff.1 hindices
    obtain ⟨few, rfl⟩ := Asset.forall₂_and_map_iff.1 each
    have whole : ({ s with groups, indices } : SkinnedMesh).Shaped L := ⟨shaped, few, triangles⟩
    refine ⟨{ s with groups, indices }, whole, rfl, ?_⟩
    rw [whole.wire_eq]
    exact passed₁.append (passed₂.append passed₃)
  · rintro ⟨m, shaped, rfl, passes⟩
    rw [shaped.wire_eq] at passes
    obtain ⟨c₁, passed₁, passes⟩ := passes.split
    obtain ⟨c₂, passed₂, passed₃⟩ := passes.split
    have admitted : m.groups.length ≤ L.maxElements := by
      have := shaped.surface.admitted
      omega
    have enough : m.groups.length * minWeightsSize ≤ c₁.remaining data := by
      rw [minWeightsSize, Nat.mul_one]
      exact Nat.le_trans (VertexWeight.length_le_bytesOfAll m.groups) passed₂.length_le_remaining
    have each := (Asset.forall₂_and_map_iff (f := kept)).2 ⟨shaped.groups, rfl⟩
    have weights := (VertexWeight.reads_first.times _ passed₁.stop_le).2 ⟨m.groups, ⟨rfl, each⟩, passed₂⟩
    have triangles := readTriangles_eq_ok_iff.2 ⟨shaped.triangles, passed₃⟩
    refine Reading.bind_eq_ok_iff.2 ⟨(_, m.surface), c₁, readSurface_eq_ok_iff.2 ⟨shaped.surface, passed₁⟩, ?_⟩
    refine Reading.bind_eq_ok_iff.2 ⟨(), c₁, ensureRecords_eq_ok_iff.2 ⟨admitted, enough, rfl⟩, ?_⟩
    refine Reading.bind_eq_ok_iff.2 ⟨_, c₂, weights, ?_⟩
    exact Reading.bind_eq_ok_iff.2 ⟨m.indices, c', triangles, rfl⟩

end Reading

variable {L : Limits}

theorem read_wire {m : SkinnedMesh} (shaped : m.Shaped L) (path : String) (trailing : Bytes) :
    read L ⟨path, m.wire ++ trailing⟩ = .ok m.placeholder :=
  Asset.readContent_eq_ok_iff.2
    ⟨_, readData_eq_ok_iff.2 ⟨m, shaped, rfl, Cursor.passes_start_iff.2 ⟨rfl, trailing, rfl⟩⟩⟩

theorem exists_wire_of_read {content : Content} {p : Placeholder} (decoded : read L content = .ok p) :
    ∃ (m : SkinnedMesh) (trailing : Bytes), m.Shaped L ∧ m.placeholder = p ∧ content.data = m.wire ++ trailing ∧
      readData L content.data {} = (.ok p, ⟨m.wire.length⟩) := by
  obtain ⟨c, run⟩ := Asset.readContent_eq_ok_iff.1 decoded
  obtain ⟨m, shaped, kept, passes⟩ := readData_eq_ok_iff.1 run
  obtain ⟨rfl, trailing, data⟩ := Cursor.passes_start_iff.1 passes
  exact ⟨m, trailing, shaped, kept, data, run⟩

end Placeholder

namespace SkinnedMesh

/-- Another mesh with the same first groups has as many vertices, and the same is kept of it. -/
theorem Shaped.regroup {L : Limits} {m : SkinnedMesh} {groups : List (List VertexWeight)} (h : m.Shaped L)
    (few : ∀ ws ∈ groups, ws.length ≤ 255) (first : groups.map List.head? = m.groups.map List.head?) :
    ({ m with groups } : SkinnedMesh).Shaped L ∧ ({ m with groups } : SkinnedMesh).placeholder = m.placeholder := by
  have number : groups.length = m.groups.length := by
    simpa only [List.length_map] using congrArg List.length first
  have by_first : ∀ groups : List (List VertexWeight),
      groups.map kept = (groups.map List.head?).map (·.getD ⟨0, .zero .single⟩) := by
    intro groups
    rw [List.map_map]
    exact List.map_congr_left fun ws _ => List.headD_eq_head?_getD ..
  refine ⟨⟨?_, few, h.triangles⟩, ?_⟩
  · rw [number]
    exact h.surface
  · simp only [placeholder, by_first, first]

end SkinnedMesh

namespace Placeholder

/-- **The placeholder decoder keeps exactly the first group of each vertex.**  The bytes of a mesh, with anything behind
them, are decoded to what the mesh holds with one weight for each vertex, in order: its first group, or zero if it has
none.  So the groups behind the first one may be others, and more or fewer.  Whatever is decoded was written from such
a mesh, and has three numbers for each position and normal and one weight. -/
theorem keeps_first_groups (L : Limits) :
    (∀ m : SkinnedMesh, m.Shaped L → ∀ path trailing, read L ⟨path, m.wire ++ trailing⟩ = .ok m.placeholder) ∧
    (∀ (m : SkinnedMesh) groups, m.Shaped L → (∀ ws ∈ groups, ws.length ≤ 255) →
      groups.map List.head? = m.groups.map List.head? → ∀ path trailing path' trailing',
        read L ⟨path, ({ m with groups } : SkinnedMesh).wire ++ trailing⟩ =
          read L ⟨path', m.wire ++ trailing'⟩) ∧
    ∀ content p, read L content = .ok p →
      (∃ (m : SkinnedMesh) (trailing : Bytes), m.Shaped L ∧ m.placeholder = p ∧ content.data = m.wire ++ trailing ∧
        readData L content.data {} = (.ok p, ⟨m.wire.length⟩)) ∧
      p.weights.length * 3 = p.vertices.length ∧ p.vertices.length = p.normals.length := by
  refine ⟨fun m shaped => read_wire shaped, ?_, ?_⟩
  · intro m groups shaped few first path trailing path' trailing'
    obtain ⟨shaped', same⟩ := shaped.regroup few first
    rw [read_wire shaped', read_wire shaped, same]
  · intro content p decoded
    obtain ⟨m, trailing, shaped, rfl, data, run⟩ := exists_wire_of_read decoded
    have vertices : m.vertices.length = m.groups.length * 3 := shaped.surface.vertices.length_eq
    have normals : m.normals.length = m.groups.length * 3 := shaped.surface.normals.length_eq
    refine ⟨⟨m, trailing, shaped, rfl, data, run⟩, ?_, vertices.trans normals.symm⟩
    rw [SkinnedMesh.placeholder, List.length_map]
    exact vertices.symm

/-- A mesh of two vertices, the first without groups and the second with two. -/
def puppet : SkinnedMesh where
  name := "puppet"
  matrix := .identity
  vertices := .ofList .float32 [0#32, 1#32, 2#32, 3#32, 4#32, 5#32]
  normals := .ofList .float32 [0#32, 1#32, 0#32, 0#32, 1#32, 0#32]
  groups := [[], [⟨5, ⟨1⟩⟩, ⟨6, ⟨2⟩⟩]]
  indices := .ofList .uint32 [0#32, 1#32, 0#32]

theorem keeps_first_groups_puppet :
    read {} ⟨"puppet.plh", puppet.wire ++ [1, 2]⟩ = .ok puppet.placeholder ∧
      puppet.placeholder.weights = [⟨0, .zero .single⟩, ⟨5, ⟨1⟩⟩] ∧
      read {} ⟨"limp.plh", ({ puppet with groups := [[], [⟨5, ⟨1⟩⟩]] } : SkinnedMesh).wire ++ []⟩ =
        read {} ⟨"puppet.plh", puppet.wire ++ [1, 2]⟩ ∧
      puppet.placeholder.weights.length * 3 = puppet.placeholder.vertices.length := by
  have vertices := Buffer.isOf_ofList .float32 [0#32, 1#32, 2#32, 3#32, 4#32, 5#32] (by decide)
  have normals := Buffer.isOf_ofList .float32 [0#32, 1#32, 0#32, 0#32, 1#32, 0#32] (by decide)
  have indices := Buffer.isOf_ofList .uint32 [0#32, 1#32, 0#32] (by decide)
  have shaped : puppet.Shaped {} :=
    ⟨⟨by decide, by decide, vertices, normals, by decide⟩, by decide, 1, by decide, indices, by decide⟩
  obtain ⟨decodes, regroups, counts⟩ := keeps_first_groups {}
  have decoded := decodes puppet shaped "puppet.plh" [1, 2]
  have again := regroups puppet [[], [⟨5, ⟨1⟩⟩]] shaped (by decide) rfl "limp.plh" [] "puppet.plh" [1, 2]
  exact ⟨decoded, rfl, again, (counts _ _ decoded).2.1⟩

end Placeholder
end AssetRecords
