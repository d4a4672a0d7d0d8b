import AssetRecords.Proofs.Asset.Consumption
/-!
# Wire — the bytes that the asset formats are made of

Each part of an asset file is read exactly where its bytes stand: a buffer, and so many sources of one kind, one behind
the other (`Reads.times`).  `Reads` ties a read to the bytes of the sources that it takes and to what it makes of them;
what a format drops is in the source and not in the answer.
-/
namespace AssetRecords

/-- A buffer of so many numbers of a type. -/
structure Buffer.IsOf (type : ScalarType) (count : Nat) (b : Buffer) : Prop where
  wellFormed : b.WellFormed
  type_eq : b.type = type
  length_eq : b.length = count

theorem Buffer.isOf_ofList (type : ScalarType) (elements : List type.Bits)
    (granted : elements.length * type.size ≤ memoryLimit) : (ofList type elements).IsOf type elements.length :=
  ⟨wellFormed_ofList (granted_of_le granted), rfl, rfl⟩

/-- How many times three numbers a buffer holds. -/
theorem Buffer.IsOf.length_div {type : ScalarType} {count : Nat} {b : Buffer} (h : b.IsOf type (count * 3)) :
    b.length / 3 = count := by
  rw [h.length_eq]
  omega

namespace Cursor

/-- From the start of the data the cursor passes what the data begins with. -/
theorem passes_start_iff {data bytes : Bytes} {c : Cursor} :
    Passes data {} bytes c ↔ c = ⟨bytes.length⟩ ∧ ∃ rest, data = bytes ++ rest := by
  constructor
  · rintro ⟨before, after, rfl, start, stop⟩
    obtain rfl := List.length_eq_zero_iff.1 start.symm
    refine ⟨?_, after, rfl⟩
    cases c
    simpa using stop
  · rintro ⟨rfl, rest, rfl⟩
    exact ⟨[], rest, rfl, rfl, (Nat.zero_add _).symm⟩

/-- The cursor passes as many bytes to one place. -/
theorem Passes.stop_unique {data bytes bytes' : Bytes} {c m m' : Cursor} (h : Passes data c bytes m)
    (h' : Passes data c bytes' m') (length : bytes.length = bytes'.length) : m = m' := by
  have stop := Armature.pos_of_passes h
  rw [length, ← Armature.pos_of_passes h'] at stop
  cases m
  exact congrArg Cursor.mk stop

theorem Passes.length_le_remaining {data bytes : Bytes} {c c' : Cursor} (h : Passes data c bytes c') :
    bytes.length ≤ c.remaining data := by
  have := h.stop_le
  rw [Armature.pos_of_passes h] at this
  rw [remaining]
  omega

end Cursor

namespace Asset

open Cursor (Passes)

/-- Parts of one length each. -/
theorem length_flatMap_of_forall {α β : Type} {partsOf : α → List β} {n : Nat} : ∀ {as : List α},
    (∀ a ∈ as, (partsOf a).length = n) → (as.flatMap partsOf).length = as.length * n
  | [], _ => (Nat.zero_mul n).symm
  | a :: as, each => by
    obtain ⟨first, rest⟩ := List.forall_mem_cons.1 each
    rw [List.flatMap_cons, List.length_append, first, length_flatMap_of_forall rest, List.length_cons, Nat.succ_mul,
      Nat.add_comm]

section Parts

variable {L : Limits} {data : Bytes} {c c' : Cursor}

theorem buffer_eq_ok_iff {type : ScalarType} {count : Nat} {b : Buffer} :
    buffer L data type count c = (.ok b, c') ↔
      count ≤ L.maxElements ∧ b.IsOf type count ∧ Passes data c b.payload c' := by
  rw [buffer, Reading.bind_eq_ok_iff]
  constructor
  · rintro ⟨_, m, admitted, h⟩
    obtain ⟨few, rfl⟩ := Reading.liftM_eq_ok_iff.1 admitted
    rw [Cursor.buffer_eq] at h
    split at h
    · exact absurd h Reading.throw_ne_ok
    · obtain ⟨bytes, m, taken, h⟩ := Reading.bind_eq_ok_iff.1 h
      obtain ⟨filled, rfl⟩ := Reading.liftM_eq_ok_iff.1 h
      obtain ⟨length, passes⟩ := Cursor.take_eq_ok_iff.1 taken
      obtain ⟨wf, type_eq, length_eq, rfl⟩ := (Buffer.ofPayload_eq_ok_iff length).1 filled
      exact ⟨Limits.checkCount_eq_ok_iff.1 few, ⟨wf, type_eq, length_eq⟩, passes⟩
  · rintro ⟨few, ⟨wf, rfl, rfl⟩, passes⟩
    have granted : b.length * b.type.size ≤ Buffer.memoryLimit := wf.granted.1
    have space : Buffer.memoryLimit < Buffer.addressSpace := by decide
    have filled := (Buffer.ofPayload_eq_ok_iff wf.length_payload).2 ⟨wf, rfl, rfl, rfl⟩
    refine ⟨(), c, Reading.liftM_eq_ok_iff.2 ⟨Limits.checkCount_eq_ok_iff.2 few, rfl⟩, ?_⟩
    rw [Cursor.buffer_eq, if_neg (by omega)]
    exact Reading.bind_eq_ok_iff.2 ⟨_, c', Cursor.take_eq_ok_iff.2 ⟨wf.length_payload, passes⟩,
      Reading.liftM_eq_ok_iff.2 ⟨filled, rfl⟩⟩

/-- To look for bytes moves nothing. -/
theorem ensureRecords_eq_ok_iff {count size : Nat} :
    ensureRecords L data count size c = (.ok (), c') ↔
      count ≤ L.maxElements ∧ count * size ≤ c.remaining data ∧ c' = c := by
  rw [ensureRecords_apply, ← Limits.checkCount_eq_ok_iff]
  cases L.checkCount count with
  | error e => exact ⟨nofun, fun ⟨h, _⟩ => nomatch h⟩
  | ok _ =>
    by_cases missing : c.remaining data < count * size
    · rw [if_pos missing]
      exact ⟨nofun, fun ⟨_, enough, _⟩ => absurd enough (Nat.not_le.2 missing)⟩
    · rw [if_neg missing, Prod.mk.injEq]
      exact ⟨fun ⟨_, h⟩ => ⟨rfl, Nat.le_of_not_lt missing, h.symm⟩, fun ⟨_, _, h⟩ => ⟨rfl, h.symm⟩⟩

end Parts

/-- A read that succeeds exactly where the bytes of a source stand, and answers what the source means. -/
def Reads {σ α : Type} (data : Bytes) (read : Reading α) (bytesOf : σ → Bytes) (Means : σ → α → Prop) : Prop :=
  ∀ {c c' : Cursor} {a : α}, c.pos ≤ data.length →
    (read c = (.ok a, c') ↔ ∃ s, Means s a ∧ Passes data c (bytesOf s) c')

/-- So many reads succeed exactly where so many sources stand one behind the other. -/
theorem Reads.times {σ α : Type} {data : Bytes} {read : Reading α} {bytesOf : σ → Bytes} {Means : σ → α → Prop}
    (h : Reads data read bytesOf Means) : ∀ count : Nat,
      Reads data (Cursor.times read count) (·.flatMap bytesOf) fun ss as => ss.length = count ∧ List.Forall₂ Means ss as
  | 0, c, c', as, hc => by
    rw [Cursor.times_zero, Reading.pure_eq_ok_iff]
    constructor
    · rintro ⟨rfl, rfl⟩
      exact ⟨[], ⟨rfl, .nil⟩, .nil hc⟩
    · rintro ⟨ss, ⟨none, each⟩, passes⟩
      obtain rfl := List.length_eq_zero_iff.1 none
      cases each
      exact ⟨rfl, (Cursor.Passes.nil_iff.1 passes).1⟩
  | count + 1, c, c', as, hc => by
    rw [Cursor.times_succ, Reading.bind_eq_ok_iff]
    constructor
    · rintro ⟨a, m, first, rest⟩
      obtain ⟨as, m', others, rest⟩ := Reading.bind_eq_ok_iff.1 rest
      obtain ⟨rfl, rfl⟩ := Reading.pure_eq_ok_iff.1 rest
      obtain ⟨s, means, front⟩ := (h hc).1 first
      obtain ⟨ss, ⟨length, each⟩, back⟩ := (h.times count front.stop_le).1 others
      exact ⟨s :: ss, ⟨congrArg (· + 1) length, .cons means each⟩, front.append back⟩
    · rintro ⟨ss, ⟨length, each⟩, passes⟩
      cases each with
      | nil => cases length
      | @cons s a ss as means each =>
        obtain ⟨m, front, back⟩ := Passes.split (a := bytesOf s) (b := ss.flatMap bytesOf) passes
        have others := (h.times count front.stop_le).2 ⟨ss, ⟨Nat.succ.inj length, each⟩, back⟩
        exact ⟨a, m, (h hc).2 ⟨s, means, front⟩, Reading.bind_eq_ok_iff.2 ⟨as, c', others, rfl⟩⟩

/-- Sources mean what they are mapped to, if each of them holds. -/
theorem forall₂_and_map_iff {σ α : Type} {P : σ → Prop} {f : σ → α} {ss : List σ} {as : List α} :
    List.Forall₂ (fun s a => P s ∧ f s = a) ss as ↔ (∀ s ∈ ss, P s) ∧ ss.map f = as := by
  rw [List.forall₂_and_left, ← List.forall₂_map_left_iff (f := f), List.forall₂_eq_eq_eq]

/-- Values behind their number, which takes two bytes. -/
def many {α : Type} (data : Bytes) (read : Reading α) : Reading (List α) := do
  let count ← Cursor.u16 data
  Cursor.times read count.toNat

theorem short_eq_ok_iff {data : Bytes} {c c' : Cursor} {n : Nat} (h : n ≤ 65535) :
    Cursor.u16 data c = (.ok (UInt16.ofNat n), c') ↔ Passes data c (littleEndian 2 n) c' := by
  rw [Cursor.u16_eq_ok_iff, UInt16.toNat_ofNat', Nat.mod_eq_of_lt (Nat.lt_succ_of_le h)]

theorem Reads.many {σ α : Type} {data : Bytes} {read : Reading α} {bytesOf : σ → Bytes} {Means : σ → α → Prop}
    (h : Reads data read bytesOf Means) :
    Reads data (Asset.many data read) (fun ss => littleEndian 2 ss.length ++ ss.flatMap bytesOf)
      fun ss as => ss.length ≤ 65535 ∧ List.Forall₂ Means ss as := by
  intro c c' as hc
  rw [Asset.many, Reading.bind_eq_ok_iff]
  constructor
  · rintro ⟨count, m, hcount, rest⟩
    have front := Cursor.u16_eq_ok_iff.1 hcount
    obtain ⟨ss, ⟨number, each⟩, back⟩ := (h.times _ front.stop_le).1 rest
    have few : ss.length ≤ 65535 := by
      have := count.toNat_lt
      omega
    rw [← number] at front
    exact ⟨ss, ⟨few, each⟩, front.append back⟩
  · rintro ⟨ss, ⟨few, each⟩, passes⟩
    obtain ⟨m, front, back⟩ := passes.split
    have number : (UInt16.ofNat ss.length).toNat = ss.length := by
      rw [UInt16.toNat_ofNat']
      exact Nat.mod_eq_of_lt (Nat.lt_succ_of_le few)
    exact ⟨_, m, (short_eq_ok_iff few).2 front, (h.times _ front.stop_le).2 ⟨ss, ⟨number.symm, each⟩, back⟩⟩

/-- So many reads of what is its own source. -/
theorem times_eq_ok_iff {α : Type} {data : Bytes} {read : Reading α} {bytesOf : α → Bytes} {Holds : α → Prop}
    (h : ∀ {c c' : Cursor} {a : α}, read c = (.ok a, c') ↔ Holds a ∧ Passes data c (bytesOf a) c') {count : Nat}
    {as : List α} {c c' : Cursor} (hc : c.pos ≤ data.length) :
    Cursor.times read count c = (.ok as, c') ↔
      as.length = count ∧ (∀ a ∈ as, Holds a) ∧ Passes data c (as.flatMap bytesOf) c' := by
  have reads : Reads data read bytesOf fun s a => Holds s ∧ s = a := by
    intro c c' a _
    rw [h]
    exact ⟨fun ⟨holds, passes⟩ => ⟨a, ⟨holds, rfl⟩, passes⟩, fun ⟨_, ⟨holds, same⟩, passes⟩ => same ▸ ⟨holds, passes⟩⟩
  rw [reads.times count hc]
  simp only [List.forall₂_and_left, List.forall₂_eq_eq_eq]
  constructor
  · rintro ⟨ss, ⟨length, holds, rfl⟩, passes⟩
    exact ⟨length, holds, passes⟩
  · rintro ⟨length, holds, passes⟩
    exact ⟨as, ⟨length, holds, rfl⟩, passes⟩

/-- The same of what stands wherever its bytes do. -/
theorem times_eq_ok_iff_of_bytes {α : Type} {data : Bytes} {read : Reading α} {bytesOf : α → Bytes}
    (h : ∀ {c c' : Cursor} {a : α}, read c = (.ok a, c') ↔ Passes data c (bytesOf a) c') {count : Nat} {as : List α}
    {c c' : Cursor} (hc : c.pos ≤ data.length) :
    Cursor.times read count c = (.ok as, c') ↔ as.length = count ∧ Passes data c (as.flatMap bytesOf) c' := by
  rw [times_eq_ok_iff (h.trans (true_and _).symm.to_iff) hc]
  exact and_congr_right fun _ => and_iff_right fun _ _ => trivial

/-- What a part is if a byte other than zero says that it is there. -/
def flagged {α : Type} (data : Bytes) (read : Reading α) : Reading (Option α) := do
  if (← Cursor.u8 data) = 0 then return none
  some <$> read

/-- A part is there exactly behind a byte other than zero. -/
theorem flagged_eq_ok_iff {α : Type} {data : Bytes} {read : Reading α} {bytesOf : α → Bytes} {Holds : α → Prop}
    (h : ∀ {c c' : Cursor} {a : α}, c.pos ≤ data.length →
      (read c = (.ok a, c') ↔ Holds a ∧ Passes data c (bytesOf a) c')) {o : Option α} {c c' : Cursor} :
    flagged data read c = (.ok o, c') ↔ (∀ a, o = some a → Holds a) ∧
      ∃ flag, (flag = 0 ↔ o = none) ∧ Passes data c ([flag] ++ o.elim [] bytesOf) c' := by
  rw [flagged, Reading.bind_eq_ok_iff]
  constructor
  · rintro ⟨flag, m, hflag, rest⟩
    have front := Cursor.u8_eq_ok_iff.1 hflag
    by_cases absent : flag = 0
    · rw [if_pos absent] at rest
      obtain ⟨rfl, rfl⟩ := Reading.pure_eq_ok_iff.1 rest
      exact ⟨nofun, flag, iff_of_true absent rfl, front⟩
    · rw [if_neg absent] at rest
      obtain ⟨a, ha, rfl⟩ := Reading.map_eq_ok_iff.1 rest
      obtain ⟨holds, back⟩ := (h front.stop_le).1 ha
      exact ⟨fun _ => by rintro ⟨⟩; exact holds, flag, iff_of_false absent nofun, front.append back⟩
  · rintro ⟨holds, flag, absent, passes⟩
    obtain ⟨m, front, back⟩ := passes.split
    refine ⟨flag, m, Cursor.u8_eq_ok_iff.2 front, ?_⟩
    cases o with
    | none =>
      obtain ⟨rfl, -⟩ := Cursor.Passes.nil_iff.1 back
      rw [if_pos (absent.2 rfl)]
      rfl
    | some a =>
      rw [if_neg fun zero => nomatch absent.1 zero]
      exact Reading.map_eq_ok_iff.2 ⟨a, (h front.stop_le).2 ⟨holds a rfl, back⟩, rfl⟩

/-!
## Surfaces

What meshes and placeholders have in common: they begin with a surface of vertices and end with triangles.
-/

/-- A name, a place, and positions and normals of three numbers for each vertex. -/
structure Surface where
  name : String
  matrix : Matrix4
  vertices : Buffer
  normals : Buffer

def Surface.bytes (s : Surface) : Bytes :=
  textBytes s.name ++ (singlesBytes s.matrix ++ (littleEndian 4 (s.vertices.length / 3) ++
    (s.vertices.payload ++ s.normals.payload)))

/-- A surface of so many vertices, as many as the limits admit. -/
structure Surface.Shaped (L : Limits) (count : Nat) (s : Surface) : Prop where
  name : FitsText s.name
  count_lt : count < Nat.pow 2 32
  vertices : s.vertices.IsOf .float32 (count * 3)
  normals : s.normals.IsOf .float32 (count * 3)
  admitted : count * 3 ≤ L.maxElements

/-- Three indices for each of so many triangles, as many as the limits admit. -/
structure Triangles (L : Limits) (count : Nat) (b : Buffer) : Prop where
  count_lt : count < Nat.pow 2 32
  indices : b.IsOf .uint32 (count * 3)
  admitted : count * 3 ≤ L.maxElements

def triangleBytes (b : Buffer) : Bytes := littleEndian 4 (b.length / 3) ++ b.payload

def readSurface (L : Limits) (data : Bytes) : Reading (Nat × Surface) := do
  let name ← Cursor.string16 data
  let matrix ← matrix4 data
  let count := (← Cursor.u32 data).toNat
  let vertices ← buffer L data .float32 (count * 3)
  let normals ← buffer L data .float32 (count * 3)
  return (count, { name, matrix, vertices, normals })

def readTriangles (L : Limits) (data : Bytes) : Reading Buffer := do
  let count := (← Cursor.u32 data).toNat
  buffer L data .uint32 (count * 3)

section Surfaces

variable {L : Limits} {data : Bytes} {c c' : Cursor}

theorem count_eq_ok_iff {n : Nat} (h : n < Nat.pow 2 32) :
    Cursor.u32 data c = (.ok (UInt32.ofNat n), c') ↔ Passes data c (littleEndian 4 n) c' := by
  rw [Cursor.u32_eq_ok_iff, UInt32.toNat_ofNat', Nat.mod_eq_of_lt h]

theorem readSurface_eq_ok_iff {count : Nat} {s : Surface} :
    readSurface L data c = (.ok (count, s), c') ↔ s.Shaped L count ∧ Passes data c s.bytes c' := by
  rw [readSurface]
  constructor
  · intro h
    obtain ⟨name, c₁, hname, h⟩ := Reading.bind_eq_ok_iff.1 h
    obtain ⟨matrix, c₂, hmatrix, h⟩ := Reading.bind_eq_ok_iff.1 h
    obtain ⟨n, c₃, hn, h⟩ := Reading.bind_eq_ok_iff.1 h
    obtain ⟨vertices, c₄, hvertices, h⟩ := Reading.bind_eq_ok_iff.1 h
    obtain ⟨normals, c₅, hnormals, h⟩ := Reading.bind_eq_ok_iff.1 h
    obtain ⟨⟨⟩, rfl⟩ := Reading.pure_eq_ok_iff.1 h
    obtain ⟨nameFits, passed₁⟩ := text_eq_ok_iff.1 hname
    obtain ⟨admitted, vertices_is, passed₄⟩ := buffer_eq_ok_iff.1 hvertices
    obtain ⟨-, normals_is, passed₅⟩ := buffer_eq_ok_iff.1 hnormals
    refine ⟨⟨nameFits, n.toNat_lt, vertices_is, normals_is, admitted⟩, ?_⟩
    rw [Surface.bytes, vertices_is.length_div]
    exact passed₁.append ((singles_eq_ok_iff.1 hmatrix).append ((Cursor.u32_eq_ok_iff.1 hn).append
      (passed₄.append passed₅)))
  · rintro ⟨shaped, passes⟩
    have back : (UInt32.ofNat count).toNat = count := by
      rw [UInt32.toNat_ofNat', Nat.mod_eq_of_lt shaped.count_lt]
    rw [Surface.bytes, shaped.vertices.length_div] at passes
    obtain ⟨c₁, passed₁, passes⟩ := passes.split
    obtain ⟨c₂, passed₂, passes⟩ := passes.split
    obtain ⟨c₃, passed₃, passes⟩ := passes.split
    obtain ⟨c₄, passed₄, passed₅⟩ := passes.split
    refine Reading.bind_eq_ok_iff.2 ⟨_, c₁, text_eq_ok_iff.2 ⟨shaped.name, passed₁⟩, ?_⟩
    refine Reading.bind_eq_ok_iff.2 ⟨_, c₂, singles_eq_ok_iff.2 passed₂, ?_⟩
    refine Reading.bind_eq_ok_iff.2 ⟨_, c₃, (count_eq_ok_iff shaped.count_lt).2 passed₃, ?_⟩
    rw [back]
    refine Reading.bind_eq_ok_iff.2 ⟨_, c₄, buffer_eq_ok_iff.2 ⟨shaped.admitted, shaped.vertices, passed₄⟩, ?_⟩
    exact Reading.bind_eq_ok_iff.2 ⟨_, c', buffer_eq_ok_iff.2 ⟨shaped.admitted, shaped.normals, passed₅⟩, rfl⟩

theorem readTriangles_eq_ok_iff {b : Buffer} :
    readTriangles L data c = (.ok b, c') ↔ (∃ count, Triangles L count b) ∧ Passes data c (triangleBytes b) c' := by
  rw [readTriangles, Reading.bind_eq_ok_iff]
  constructor
  · rintro ⟨n, m, hn, h⟩
    obtain ⟨admitted, indices, back⟩ := buffer_eq_ok_iff.1 h
    refine ⟨⟨n.toNat, n.toNat_lt, indices, admitted⟩, ?_⟩
    rw [triangleBytes, indices.length_div]
    exact (Cursor.u32_eq_ok_iff.1 hn).append back
  · rintro ⟨⟨count, triangles⟩, passes⟩
    have back : (UInt32.ofNat count).toNat = count := by
      rw [UInt32.toNat_ofNat', Nat.mod_eq_of_lt triangles.count_lt]
    rw [triangleBytes, triangles.indices.length_div] at passes
    obtain ⟨m, front, rest⟩ := passes.split
    refine ⟨_, m, (count_eq_ok_iff triangles.count_lt).2 front, ?_⟩
    rw [back]
    exact buffer_eq_ok_iff.2 ⟨triangles.admitted, triangles.indices, rest⟩

end Surfaces
end Asset
end AssetRecords
