import AssetRecords.Proofs.Asset.Wire
/-!
# Level — the level decoder inverts the level grammar

`Level.wire` writes a level by its grammar.  The decoder finds a level wherever its bytes stand at the front, whatever
is behind them, and takes nothing for a level but what the grammar writes, except that any byte other than zero says
that there are texture coordinates (`read_inverts_wire`).
-/
namespace AssetRecords

open Asset (FitsText textBytes singlesBytes flagged text_eq_ok_iff buffer_eq_ok_iff flagged_eq_ok_iff readSurface
  readTriangles readSurface_eq_ok_iff readTriangles_eq_ok_iff)
open Cursor (Passes)

namespace Mesh

/-- The bytes of a mesh, with such a byte in front of the texture coordinates. -/
def wireWith (flag : UInt8) (m : Mesh) : Bytes :=
  textBytes m.name ++ singlesBytes m.matrix ++ littleEndian 4 m.vertexCount ++ m.vertices.payload ++
    m.normals.payload ++ [flag] ++ m.uvs.elim [] Buffer.payload ++ littleEndian 4 m.triangleCount ++ m.indices.payload

/-- The byte in front of the texture coordinates: one if there are any, and zero otherwise. -/
def flag (m : Mesh) : UInt8 := if m.uvs.isSome then 1 else 0

def wire (m : Mesh) : Bytes := m.wireWith m.flag

def surface (m : Mesh) : Asset.Surface := { m with }

/-- A mesh of so many vertices and triangles. -/
structure Shaped (L : Limits) (vertexCount triangleCount : Nat) (m : Mesh) : Prop where
  surface : m.surface.Shaped L vertexCount
  uvs : ∀ b, m.uvs = some b → b.IsOf .float32 (vertexCount * 2)
  triangles : Asset.Triangles L triangleCount m.indices

theorem wireWith_eq (flag : UInt8) (m : Mesh) : m.wireWith flag =
    m.surface.bytes ++ (([flag] ++ m.uvs.elim [] Buffer.payload) ++ Asset.triangleBytes m.indices) := by
  simp only [wireWith, Asset.Surface.bytes, Asset.triangleBytes, List.append_assoc]
  rfl

section Reading

variable {L : Limits} {data : Bytes} {c c' : Cursor}

/-- A mesh is a surface, texture coordinates if a byte says that they are there, and triangles. -/
theorem readData_eq : readData L data = (do
    let (vertexCount, s) ← readSurface L data
    let uvs ← flagged data (Asset.buffer L data .float32 (vertexCount * 2))
    let indices ← readTriangles L data
    return { s with uvs, indices }) := by
  simp only [readData, readSurface, readTriangles, flagged, bind_assoc, pure_bind]
  congr! 11 with name matrix vertexCount vertices normals
  funext flag
  split <;> rfl

theorem uvs_eq_ok_iff {n : Nat} {uvs : Option Buffer} :
    flagged data (Asset.buffer L data .float32 (n * 2)) c = (.ok uvs, c') ↔
      (∀ b, uvs = some b → n * 2 ≤ L.maxElements ∧ b.IsOf .float32 (n * 2)) ∧
        ∃ flag, (flag = 0 ↔ uvs = none) ∧ Passes data c ([flag] ++ uvs.elim [] Buffer.payload) c' :=
  flagged_eq_ok_iff fun _ => buffer_eq_ok_iff.trans and_assoc.symm

/-- **A mesh is read exactly where its bytes stand**, if it has a shape. -/
theorem readData_eq_ok_iff {m : Mesh} : readData L data c = (.ok m, c') ↔
    (∃ n k, m.Shaped L n k) ∧ ∃ flag, (flag = 0 ↔ m.uvs = none) ∧ Passes data c (m.wireWith flag) c' := by
  simp only [readData_eq, wireWith_eq]
  constructor
  · intro h
    obtain ⟨⟨n, s⟩, c₁, hsurface, h⟩ := Reading.bind_eq_ok_iff.1 h
    obtain ⟨uvs, c₂, huvs, h⟩ := Reading.bind_eq_ok_iff.1 h
    obtain ⟨indices, c₃, hindices, h⟩ := Reading.bind_eq_ok_iff.1 h
    obtain ⟨rfl, rfl⟩ := Reading.pure_eq_ok_iff.1 h
    obtain ⟨shaped, passed₁⟩ := readSurface_eq_ok_iff.1 hsurface
    obtain ⟨uvs_is, flag, absent, passed₂⟩ := uvs_eq_ok_iff.1 huvs
    obtain ⟨⟨k, triangles⟩, passed₃⟩ := readTriangles_eq_ok_iff.1 hindices
    exact ⟨⟨n, k, shaped, fun b hb => (uvs_is b hb).2, triangles⟩, flag, absent,
      passed₁.append (passed₂.append passed₃)⟩
  · rintro ⟨⟨n, k, shaped⟩, flag, absent, passes⟩
    obtain ⟨c₁, passed₁, passes⟩ := passes.split
    obtain ⟨c₂, passed₂, passed₃⟩ := passes.split
    have fewer : n * 2 ≤ L.maxElements := Nat.le_trans (Nat.mul_le_mul_left n (by decide)) shaped.surface.admitted
    have uvs := uvs_eq_ok_iff.2 ⟨fun b hb => ⟨fewer, shaped.uvs b hb⟩, flag, absent, passed₂⟩
    refine Reading.bind_eq_ok_iff.2 ⟨(n, m.surface), c₁, readSurface_eq_ok_iff.2 ⟨shaped.surface, passed₁⟩, ?_⟩
    refine Reading.bind_eq_ok_iff.2 ⟨m.uvs, c₂, uvs, ?_⟩
    have triangles := readTriangles_eq_ok_iff.2 ⟨⟨k, shaped.triangles⟩, passed₃⟩
    exact Reading.bind_eq_ok_iff.2 ⟨m.indices, c', triangles, rfl⟩

end Reading
end Mesh

namespace Level

/-- The bytes of a level, with such a byte in front of the texture coordinates of each mesh. -/
def wireWith (flags : List UInt8) (l : Level) : Bytes :=
  textBytes l.name ++ littleEndian 2 l.meshes.length ++ (flags.zip l.meshes).flatMap fun p => p.2.wireWith p.1

/-- The bytes of a level: its name, the number of its meshes, and the meshes. -/
def wire (l : Level) : Bytes := textBytes l.name ++ littleEndian 2 l.meshes.length ++ l.meshes.flatMap Mesh.wire

/-- A level that a file can hold. -/
structure Shaped (L : Limits) (l : Level) : Prop where
  name : FitsText l.name
  meshes_le : l.meshes.length ≤ 65535
  meshes : ∀ m ∈ l.meshes, ∃ n k, m.Shaped L n k

/-- Bytes that say of each mesh whether there are texture coordinates. -/
def Tells (flags : List UInt8) (l : Level) : Prop := List.Forall₂ (fun flag m => flag = 0 ↔ m.uvs = none) flags l.meshes

/-- What a byte in front of texture coordinates is taken for. -/
def takenFor (flag : UInt8) : UInt8 := if flag = 0 then 0 else 1

theorem Tells.taken {flags : List UInt8} {l : Level} (h : Tells flags l) :
    flags.map takenFor = l.meshes.map Mesh.flag := by
  unfold Tells at h
  generalize l.meshes = ms at h
  induction h with
  | nil => rfl
  | @cons flag m flags ms same _ ih =>
    have taken : takenFor flag = m.flag := by
      cases huvs : m.uvs with
      | none => rw [takenFor, if_pos (same.2 huvs), Mesh.flag, huvs]; rfl
      | some b => rw [takenFor, if_neg (fun zero => by rw [same.1 zero] at huvs; cases huvs), Mesh.flag, huvs]; rfl
    rw [List.map_cons, List.map_cons, taken, ih]

theorem wireWith_flags (l : Level) : l.wireWith (l.meshes.map Mesh.flag) = l.wire := by
  have zipped : (l.meshes.map Mesh.flag).zip l.meshes = l.meshes.map fun m => (m.flag, m) := by
    conv_lhs => rw [← List.map_id l.meshes, List.map_map, List.zip_map']
    rfl
  rw [wire, wireWith, zipped, List.flatMap_map]
  rfl

theorem tells_flags (l : Level) : Tells (l.meshes.map Mesh.flag) l := by
  refine List.forall₂_map_left_iff.2 (List.forall₂_same.2 fun m _ => ?_)
  rw [Mesh.flag]
  cases m.uvs with
  | none => exact iff_of_true rfl rfl
  | some b => exact iff_of_false (show ¬(1 : UInt8) = 0 by decide) nofun

section Reading

variable {L : Limits} {data : Bytes} {c c' : Cursor}

theorem reads_mesh : Asset.Reads data (Mesh.readData L data) (fun p : UInt8 × Mesh => p.2.wireWith p.1)
    fun p m => p.2 = m ∧ (p.1 = 0 ↔ m.uvs = none) ∧ ∃ n k, m.Shaped L n k := by
  intro c c' m _
  rw [Mesh.readData_eq_ok_iff]
  constructor
  · rintro ⟨shaped, flag, told, passes⟩
    exact ⟨(flag, m), ⟨rfl, told, shaped⟩, passes⟩
  · rintro ⟨⟨flag, _⟩, ⟨rfl, told, shaped⟩, passes⟩
    exact ⟨shaped, flag, told, passes⟩

/-- Sources of meshes are the meshes with a byte for each that says whether there are texture coordinates. -/
theorem forall₂_sources_iff : ∀ {ps : List (UInt8 × Mesh)} {meshes : List Mesh},
    List.Forall₂ (fun p m => p.2 = m ∧ (p.1 = 0 ↔ m.uvs = none) ∧ ∃ n k, m.Shaped L n k) ps meshes ↔
      ∃ flags, ps = flags.zip meshes ∧ List.Forall₂ (fun flag m => flag = 0 ↔ m.uvs = none) flags meshes ∧
        ∀ m ∈ meshes, ∃ n k, m.Shaped L n k
  | ps, [] => by
    rw [List.forall₂_nil_right_iff]
    constructor
    · rintro rfl
      exact ⟨[], rfl, .nil, List.forall_mem_nil _⟩
    · rintro ⟨flags, rfl, -, -⟩
      exact List.zip_nil_right
  | ps, m :: meshes => by
    rw [List.forall₂_cons_right_iff, List.forall_mem_cons]
    constructor
    · rintro ⟨⟨flag, _⟩, ps, ⟨rfl, told, shaped⟩, rest, rfl⟩
      obtain ⟨flags, rfl, tells, rest⟩ := forall₂_sources_iff.1 rest
      exact ⟨flag :: flags, rfl, .cons told tells, shaped, rest⟩
    · rintro ⟨flags, rfl, tells, shaped, rest⟩
      cases tells with
      | @cons flag _ flags _ told tells =>
        exact ⟨(flag, m), flags.zip meshes, ⟨rfl, told, shaped⟩, forall₂_sources_iff.2 ⟨flags, rfl, tells, rest⟩, rfl⟩

theorem readData_eq : readData L data = (do
    let name ← Cursor.string16 data
    let meshes ← Asset.many data (Mesh.readData L data)
    return { name, meshes }) := by
  simp only [readData, Asset.many, bind_assoc]

/-- **A level is read exactly where its bytes stand**, if it has a shape. -/
theorem readData_eq_ok_iff {l : Level} : readData L data c = (.ok l, c') ↔
    l.Shaped L ∧ ∃ flags, Tells flags l ∧ Passes data c (l.wireWith flags) c' := by
  simp only [readData_eq, wireWith, List.append_assoc]
  constructor
  · intro h
    obtain ⟨name, c₁, hname, h⟩ := Reading.bind_eq_ok_iff.1 h
    obtain ⟨meshes, c₂, hmeshes, h⟩ := Reading.bind_eq_ok_iff.1 h
    obtain ⟨rfl, rfl⟩ := Reading.pure_eq_ok_iff.1 h
    obtain ⟨fits, passed₁⟩ := text_eq_ok_iff.1 hname
    obtain ⟨ps, ⟨few, each⟩, passed₂⟩ := (reads_mesh.many passed₁.stop_le).1 hmeshes
    simp only [each.length_eq] at few passed₂
    obtain ⟨flags, rfl, told, shaped⟩ := forall₂_sources_iff.1 each
    exact ⟨⟨fits, few, shaped⟩, flags, told, passed₁.append passed₂⟩
  · rintro ⟨shaped, flags, told, passes⟩
    obtain ⟨c₁, passed₁, passed₂⟩ := passes.split
    have each := forall₂_sources_iff.2 ⟨flags, rfl, told, shaped.meshes⟩
    rw [← each.length_eq] at passed₂
    have few : (flags.zip l.meshes).length ≤ 65535 := each.length_eq ▸ shaped.meshes_le
    have meshes := (reads_mesh.many passed₁.stop_le).2 ⟨_, ⟨few, each⟩, passed₂⟩
    refine Reading.bind_eq_ok_iff.2 ⟨l.name, c₁, text_eq_ok_iff.2 ⟨shaped.name, passed₁⟩, ?_⟩
    exact Reading.bind_eq_ok_iff.2 ⟨l.meshes, c', meshes, rfl⟩

end Reading

/-- What is at the front of a file is what the file holds, and the bytes of it are those that were read. -/
theorem read_eq_ok_iff {L : Limits} {content : Content} {l : Level} : read L content = .ok l ↔
    l.Shaped L ∧ ∃ flags trailing, Tells flags l ∧ content.data = l.wireWith flags ++ trailing ∧
      readData L content.data {} = (.ok l, ⟨(l.wireWith flags).length⟩) := by
  rw [read, Asset.readContent_eq_ok_iff]
  constructor
  · rintro ⟨c, run⟩
    obtain ⟨shaped, flags, told, passes⟩ := readData_eq_ok_iff.1 run
    obtain ⟨rfl, trailing, data⟩ := Cursor.passes_start_iff.1 passes
    exact ⟨shaped, flags, trailing, told, data, run⟩
  · rintro ⟨-, flags, trailing, -, -, run⟩
    exact ⟨_, run⟩

/-- **The level decoder inverts the level grammar.**  The bytes of a level, with anything behind them, are decoded to
that level, whatever it holds that a file can hold.  Conversely each mesh of a level that is decoded has as many
positions, normals and texture coordinates as it has vertices, and as many indices as it has triangles, within the
limits; and the bytes that were taken are those of the level, except that any byte other than zero was taken for the one
in front of texture coordinates. -/
theorem read_inverts_wire (L : Limits) :
    (∀ l : Level, l.Shaped L → ∀ path trailing, read L ⟨path, l.wire ++ trailing⟩ = .ok l) ∧
    ∀ content l, read L content = .ok l → l.Shaped L ∧ ∃ flags trailing, Tells flags l ∧
      content.data = l.wireWith flags ++ trailing ∧
      readData L content.data {} = (.ok l, ⟨(l.wireWith flags).length⟩) ∧ l.wire = l.wireWith (flags.map takenFor) := by
  refine ⟨fun l shaped path trailing => ?_, fun content l decoded => ?_⟩
  · have run := readData_eq_ok_iff.2 ⟨shaped, _, tells_flags l, Cursor.passes_start_iff.2 ⟨rfl, trailing, rfl⟩⟩
    rw [wireWith_flags] at run
    exact Asset.readContent_eq_ok_iff.2 ⟨_, run⟩
  · obtain ⟨shaped, flags, trailing, told, data, run⟩ := read_eq_ok_iff.1 decoded
    exact ⟨shaped, flags, trailing, told, data, run, by rw [told.taken, wireWith_flags]⟩

/-- A level of one mesh: a single vertex with texture coordinates, and a triangle of it. -/
def speck : Level where
  name := "speck"
  meshes := [{
    name := "µ", matrix := .identity
    vertices := .ofList .float32 [0#32, 1#32, 2#32], normals := .ofList .float32 [0#32, 0#32, 0#32]
    uvs := some (.ofList .float32 [3#32, 4#32]), indices := .ofList .uint32 [0#32, 0#32, 0#32] }]

/-- A byte of seven in front of the texture coordinates is taken for a one. -/
theorem read_inverts_wire_speck : read {} ⟨"speck.lvl", speck.wire ++ [9]⟩ = .ok speck ∧
    read {} ⟨"speck.lvl", speck.wireWith [7]⟩ = .ok speck ∧ speck.wireWith [7] ≠ speck.wire ∧
      ∃ flags trailing, Tells flags speck ∧ speck.wireWith [7] = speck.wireWith flags ++ trailing ∧
        speck.wire = speck.wireWith (flags.map takenFor) := by
  have shaped : speck.Shaped {} := by
    refine ⟨by decide, by decide, List.forall_mem_singleton.2 ⟨1, 1, ⟨by decide, by decide, ?_, ?_, by decide⟩, ?_, ?_⟩⟩
    · exact Buffer.isOf_ofList .float32 [0#32, 1#32, 2#32] (by decide)
    · exact Buffer.isOf_ofList .float32 [0#32, 0#32, 0#32] (by decide)
    · rintro _ ⟨⟩
      exact Buffer.isOf_ofList .float32 [3#32, 4#32] (by decide)
    · exact ⟨by decide, Buffer.isOf_ofList .uint32 [0#32, 0#32, 0#32] (by decide), by decide⟩
  have decoded : read {} ⟨"speck.lvl", speck.wireWith [7]⟩ = .ok speck := by decide +kernel
  obtain ⟨-, flags, trailing, told, data, -, same⟩ := (read_inverts_wire {}).2 _ _ decoded
  exact ⟨(read_inverts_wire {}).1 speck shaped _ _, decoded, by decide +kernel, flags, trailing, told, data, same⟩

end Level
end AssetRecords
