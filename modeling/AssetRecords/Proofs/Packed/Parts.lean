import AssetRecords.Packed.Reader
import AssetRecords.Packed.Writer
import AssetRecords.Proofs.Cursor
import AssetRecords.Proofs.EnumTable
import AssetRecords.Proofs.Typing
import AssetRecords.Proofs.Utf8
/-!
# Parts — what packed bytes are made of

A leaf, a count and a buffer are each read exactly where their bytes stand, and a value of each shape exactly where its
parts are.  One statement serves both directions: that what was written is read, and that what was read would have been
written so.
-/
namespace AssetRecords
namespace Packed

open Cursor (Passes)

theorem count_eq_ok_iff {size n : Nat} {what : String} {b : Bytes} :
    count size n what = .ok b ↔ n < Nat.pow 256 size ∧ b = littleEndian size n := by
  unfold count
  split
  · rename_i h
    exact ⟨fun e => ⟨h, by cases e; rfl⟩, fun e => by rw [e.2]⟩
  · rename_i h
    exact ⟨nofun, fun e => absurd e.1 h⟩

theorem writeText_eq_ok_iff {s : String} {b : Bytes} :
    writeLeaf (.text s) = .ok b ↔ (Utf8.encode s.toList).length < Nat.pow 256 2 ∧
      b = littleEndian 2 (Utf8.encode s.toList).length ++ Utf8.encode s.toList := by
  rw [writeLeaf, Except.bind_eq_ok_iff]
  constructor
  · rintro ⟨length, h, ⟨⟩⟩
    obtain ⟨small, rfl⟩ := count_eq_ok_iff.1 h
    exact ⟨small, rfl⟩
  · rintro ⟨small, rfl⟩
    exact ⟨_, count_eq_ok_iff.2 ⟨small, rfl⟩, rfl⟩

theorem string16_eq_ok_iff {data : Bytes} {s : String} {c c' : Cursor} :
    Cursor.string16 data c = (.ok s, c') ↔ ∃ b, writeLeaf (.text s) = .ok b ∧ Passes data c b c' := by
  rw [Cursor.string16, Reading.atomically_eq_ok_iff, Reading.bind_eq_ok_iff]
  constructor
  · rintro ⟨length, m, hlength, h⟩
    obtain ⟨bytes, m', hbytes, h⟩ := Reading.bind_eq_ok_iff.1 h
    obtain ⟨hsize, passes⟩ := Cursor.take_eq_ok_iff.1 hbytes
    cases hcs : Utf8.decode bytes with
    | error fault => rw [hcs] at h; exact absurd h Reading.throw_ne_ok
    | ok cs =>
      rw [hcs] at h
      obtain ⟨rfl, rfl⟩ := Reading.pure_eq_ok_iff.1 h
      have encoded : Utf8.encode (String.ofList cs).toList = bytes := by
        rw [String.toList_ofList]
        exact Utf8.encode_of_decode hcs
      refine ⟨_, writeText_eq_ok_iff.2 ⟨?_, rfl⟩, ?_⟩
      · rw [encoded, hsize]
        exact length.toNat_lt
      · rw [encoded, hsize]
        exact (Cursor.u16_eq_ok_iff.1 hlength).append passes
  · rintro ⟨b, hb, passes⟩
    obtain ⟨small, rfl⟩ := writeText_eq_ok_iff.1 hb
    obtain ⟨m, front, back⟩ := passes.split
    have number : (UInt16.ofNat (Utf8.encode s.toList).length).toNat = (Utf8.encode s.toList).length := by
      rw [UInt16.toNat_ofNat', Nat.mod_eq_of_lt small]
    refine ⟨.ofNat (Utf8.encode s.toList).length, m, Cursor.u16_eq_ok_iff.2 (number.symm ▸ front), ?_⟩
    refine Reading.bind_eq_ok_iff.2 ⟨_, c', Cursor.take_eq_ok_iff.2 ⟨number.symm, back⟩, ?_⟩
    rw [Utf8.decode_encode]
    exact Reading.pure_eq_ok_iff.2 ⟨String.ofList_toList.symm, rfl⟩

theorem readBool_eq_ok_iff {data : Bytes} {l : Leaf} {c c' : Cursor} :
    readLeaf data .bool c = (.ok l, c') ↔ ∃ b, l = .bool b ∧ Passes data c [if b then 1 else 0] c' := by
  rw [readLeaf, Reading.bind_eq_ok_iff]
  constructor
  · rintro ⟨byte, m, hbyte, h⟩
    have passes := Cursor.u8_eq_ok_iff.1 hbyte
    split at h
    · obtain ⟨rfl, rfl⟩ := Reading.pure_eq_ok_iff.1 h
      exact ⟨false, rfl, passes⟩
    · obtain ⟨rfl, rfl⟩ := Reading.pure_eq_ok_iff.1 h
      exact ⟨true, rfl, passes⟩
    · exact absurd h Reading.throw_ne_ok
  · rintro ⟨b, rfl, passes⟩
    refine ⟨_, c', Cursor.u8_eq_ok_iff.2 passes, ?_⟩
    cases b <;> rfl

/-- A leaf of a type is read exactly where its bytes stand. -/
theorem readLeaf_eq_ok_iff {data : Bytes} {type : LeafType} {l : Leaf} {c c' : Cursor} :
    readLeaf data type c = (.ok l, c') ↔ l.type = type ∧ ∃ b, writeLeaf l = .ok b ∧ Passes data c b c' := by
  cases type with
  | bool =>
    rw [readBool_eq_ok_iff]
    constructor
    · rintro ⟨b, rfl, passes⟩
      exact ⟨rfl, _, rfl, passes⟩
    · rintro ⟨htype, bytes, hb, passes⟩
      cases l with
      | bool b => cases hb; exact ⟨b, rfl, passes⟩
      | _ => cases htype
  | number type =>
    rw [readLeaf, Reading.map_eq_ok_iff]
    constructor
    · rintro ⟨n, h, rfl⟩
      obtain ⟨rfl, passes⟩ := Cursor.scalar_eq_ok_iff.1 h
      exact ⟨rfl, _, rfl, passes⟩
    · rintro ⟨htype, bytes, hb, passes⟩
      cases l with
      | number n =>
        cases htype
        cases hb
        exact ⟨n, Cursor.scalar_eq_ok_iff.2 ⟨rfl, passes⟩, rfl⟩
      | _ => cases htype
  | text =>
    rw [readLeaf, Reading.map_eq_ok_iff]
    constructor
    · rintro ⟨s, h, rfl⟩
      exact ⟨rfl, string16_eq_ok_iff.1 h⟩
    · rintro ⟨htype, h⟩
      cases l with
      | text s => exact ⟨s, string16_eq_ok_iff.2 h, rfl⟩
      | _ => cases htype

theorem readCount_eq_ok_iff {L : Limits} {data : Bytes} {n : Nat} {c c' : Cursor} :
    readCount L data c = (.ok n, c') ↔
      n ≤ L.maxElements ∧ n < Nat.pow 256 4 ∧ Passes data c (littleEndian 4 n) c' := by
  rw [readCount, Reading.bind_eq_ok_iff]
  constructor
  · rintro ⟨x, m, hx, h⟩
    obtain ⟨_, m', hcheck, h⟩ := Reading.bind_eq_ok_iff.1 h
    obtain ⟨rfl, rfl⟩ := Reading.pure_eq_ok_iff.1 h
    obtain ⟨few, rfl⟩ := Reading.liftM_eq_ok_iff.1 hcheck
    exact ⟨Limits.checkCount_eq_ok_iff.1 few, x.toNat_lt, Cursor.u32_eq_ok_iff.1 hx⟩
  · rintro ⟨few, small, passes⟩
    have number : (UInt32.ofNat n).toNat = n := by rw [UInt32.toNat_ofNat', Nat.mod_eq_of_lt small]
    refine ⟨.ofNat n, c', Cursor.u32_eq_ok_iff.2 (number.symm ▸ passes), ?_⟩
    rw [number]
    have admitted := Limits.checkCount_eq_ok_iff.2 few
    exact Reading.bind_eq_ok_iff.2 ⟨(), c', Reading.liftM_eq_ok_iff.2 ⟨admitted, rfl⟩, rfl⟩

theorem writeBuffer_eq_ok_iff {b : Buffer} {bytes : Bytes} :
    writeBuffer b = .ok bytes ↔ b.length < Nat.pow 256 4 ∧
      bytes = [b.type.tag] ++ (littleEndian 4 b.length ++ b.payload) := by
  rw [writeBuffer, Except.bind_eq_ok_iff]
  constructor
  · rintro ⟨length, h, ⟨⟩⟩
    obtain ⟨small, rfl⟩ := count_eq_ok_iff.1 h
    exact ⟨small, rfl⟩
  · rintro ⟨small, rfl⟩
    exact ⟨_, count_eq_ok_iff.2 ⟨small, rfl⟩, rfl⟩

/-- A buffer is read exactly where its bytes stand, if the limits admit its length. -/
theorem readBuffer_eq_ok_iff {L : Limits} {data : Bytes} {b : Buffer} {c c' : Cursor} :
    readBuffer L data c = (.ok b, c') ↔
      b.WellFormed ∧ b.length ≤ L.maxElements ∧ ∃ bytes, writeBuffer b = .ok bytes ∧ Passes data c bytes c' := by
  rw [readBuffer, Reading.bind_eq_ok_iff]
  constructor
  · rintro ⟨tag, m, htag, h⟩
    cases htype : ScalarType.ofTag? tag with
    | none => rw [htype] at h; exact absurd h Reading.throw_ne_ok
    | some type =>
      rw [htype] at h
      obtain ⟨count, m', hcount, h⟩ := Reading.bind_eq_ok_iff.1 h
      obtain ⟨bytes, m'', hbytes, h⟩ := Reading.bind_eq_ok_iff.1 h
      obtain ⟨hb, rfl⟩ := Reading.liftM_eq_ok_iff.1 h
      obtain ⟨few, small, front⟩ := readCount_eq_ok_iff.1 hcount
      obtain ⟨size, back⟩ := Cursor.take_eq_ok_iff.1 hbytes
      obtain ⟨wf, rfl, rfl, rfl⟩ := (Buffer.ofPayload_eq_ok_iff size).1 hb
      obtain rfl := ScalarType.ofTag?_eq_some.1 htype
      exact ⟨wf, few, _, writeBuffer_eq_ok_iff.2 ⟨small, rfl⟩, (Cursor.u8_eq_ok_iff.1 htag).append (front.append back)⟩
  · rintro ⟨wf, few, bytes, hbytes, passes⟩
    obtain ⟨small, rfl⟩ := writeBuffer_eq_ok_iff.1 hbytes
    obtain ⟨m, htag, passes⟩ := passes.split
    obtain ⟨m', hcount, hpayload⟩ := passes.split
    refine ⟨b.type.tag, m, Cursor.u8_eq_ok_iff.2 htag, ?_⟩
    rw [ScalarType.ofTag?_eq_some.2 rfl]
    refine Reading.bind_eq_ok_iff.2 ⟨b.length, m', readCount_eq_ok_iff.2 ⟨few, small, hcount⟩, ?_⟩
    refine Reading.bind_eq_ok_iff.2 ⟨b.payload, c', Cursor.take_eq_ok_iff.2 ⟨wf.length_payload, hpayload⟩, ?_⟩
    exact Reading.liftM_eq_ok_iff.2 ⟨(Buffer.ofPayload_eq_ok_iff wf.length_payload).2 ⟨wf, rfl, rfl, rfl⟩, rfl⟩

theorem writeNumbers_eq_ok_iff {type : ScalarType} {ns : List type.Bits} {bytes : Bytes} :
    write (.numbers type ns) = .ok bytes ↔ ns.length < Nat.pow 256 4 ∧
      bytes = littleEndian 4 ns.length ++ ns.flatMap type.bytesOf := by
  rw [write, Except.bind_eq_ok_iff]
  constructor
  · rintro ⟨length, h, ⟨⟩⟩
    obtain ⟨small, rfl⟩ := count_eq_ok_iff.1 h
    exact ⟨small, rfl⟩
  · rintro ⟨small, rfl⟩
    exact ⟨_, count_eq_ok_iff.2 ⟨small, rfl⟩, rfl⟩

/-!
## Shapes

What a value of each shape is read from, in terms of what its parts are read from with one level less.
-/

section Shapes

variable {S : Schema} {L : Limits} {data : Bytes} {room : Nat} {v : Value} {c c' : Cursor}

attribute [local simp] readValue

theorem readNumbers_eq_ok_iff {type : ScalarType} :
    readValue S L data (room + 1) (.numbers type) c = (.ok v, c') ↔ ∃ ns, v = .numbers type ns ∧
      ns.length ≤ L.maxElements ∧ ∃ bytes, write v = .ok bytes ∧ Passes data c bytes c' := by
  rw [readValue, Reading.bind_eq_ok_iff]
  constructor
  · rintro ⟨count, m, hcount, h⟩
    obtain ⟨bytes, m', hbytes, h⟩ := Reading.bind_eq_ok_iff.1 h
    obtain ⟨rfl, rfl⟩ := Reading.pure_eq_ok_iff.1 h
    obtain ⟨few, small, front⟩ := readCount_eq_ok_iff.1 hcount
    obtain ⟨size, back⟩ := Cursor.take_eq_ok_iff.1 hbytes
    have length : (Buffer.readElements type count bytes).length = count := Buffer.length_readElements count bytes
    refine ⟨_, rfl, by rwa [length], _, writeNumbers_eq_ok_iff.2 ⟨by rwa [length], rfl⟩, ?_⟩
    rw [length, Buffer.flatMap_readElements count bytes size]
    exact front.append back
  · rintro ⟨ns, rfl, few, bytes, hbytes, passes⟩
    obtain ⟨small, rfl⟩ := writeNumbers_eq_ok_iff.1 hbytes
    obtain ⟨m, front, back⟩ := passes.split
    refine ⟨ns.length, m, readCount_eq_ok_iff.2 ⟨few, small, front⟩, ?_⟩
    have taken := Cursor.take_eq_ok_iff.2 ⟨Buffer.length_flatMap_bytesOf ns, back⟩
    refine Reading.bind_eq_ok_iff.2 ⟨_, c', taken, ?_⟩
    rw [Buffer.readElements_flatMap]
    rfl

theorem readEnum_eq_ok_iff {table : EnumTable} {initial : Nat} :
    readValue S L data (room + 1) (.enum table initial) c = (.ok v, c') ↔ ∃ ordinal variant, v = .enum table variant ∧
      table.byOrdinal? ordinal = some variant ∧ ordinal < Nat.pow 256 2 ∧ Passes data c (littleEndian 2 ordinal) c' := by
  rw [readValue, Reading.bind_eq_ok_iff]
  constructor
  · rintro ⟨ordinal, m, hordinal, h⟩
    obtain ⟨variant, m', hvariant, h⟩ := Reading.bind_eq_ok_iff.1 h
    obtain ⟨rfl, rfl⟩ := Reading.pure_eq_ok_iff.1 h
    obtain ⟨found, rfl⟩ := Reading.liftM_eq_ok_iff.1 hvariant
    exact ⟨ordinal.toNat, variant, rfl, EnumTable.ofOrdinal_eq_ok_iff.1 found, ordinal.toNat_lt,
      Cursor.u16_eq_ok_iff.1 hordinal⟩
  · rintro ⟨ordinal, variant, rfl, found, small, passes⟩
    have number : (UInt16.ofNat ordinal).toNat = ordinal := by rw [UInt16.toNat_ofNat', Nat.mod_eq_of_lt small]
    refine ⟨.ofNat ordinal, c', Cursor.u16_eq_ok_iff.2 (number.symm ▸ passes), ?_⟩
    rw [number]
    have listed := EnumTable.ofOrdinal_eq_ok_iff.2 found
    exact Reading.bind_eq_ok_iff.2 ⟨variant, c', Reading.liftM_eq_ok_iff.2 ⟨listed, rfl⟩, rfl⟩

/-- Parts with keys are read as parts without. -/
theorem mapM_keyed (read : Shape → Reading Value) : ∀ fields : List FieldType,
    (fields.mapM fun f => do return (f.key, ← read f.shape)) =
      ((fields.map (·.key)).zip ·) <$> (fields.map (·.shape)).mapM read
  | [] => by simp
  | f :: rest => by
    rw [List.mapM_cons, mapM_keyed read rest]
    simp

theorem readRecord_eq_ok_iff {name : String} :
    readValue S L data (room + 1) (.record name) c = (.ok v, c') ↔
      ∃ vs, v = .record name (((S.fieldsOf name).map (·.key)).zip vs) ∧
        ((S.fieldsOf name).map (·.shape)).mapM (readValue S L data room) c = (.ok vs, c') := by
  rw [readValue, mapM_keyed, Reading.bind_eq_ok_iff]
  constructor
  · rintro ⟨fields, m, hfields, h⟩
    obtain ⟨vs, hvs, rfl⟩ := Reading.map_eq_ok_iff.1 hfields
    obtain ⟨rfl, rfl⟩ := Reading.pure_eq_ok_iff.1 h
    exact ⟨vs, rfl, hvs⟩
  · rintro ⟨vs, rfl, hvs⟩
    exact ⟨_, c', Reading.map_eq_ok_iff.2 ⟨vs, hvs, rfl⟩, rfl⟩

theorem times_eq_mapM (read : Shape → Reading Value) (s : Shape) : ∀ count : Nat,
    Cursor.times (read s) count = (List.replicate count s).mapM read
  | 0 => by rw [Cursor.times_zero, List.replicate_zero, List.mapM_nil]
  | count + 1 => by rw [Cursor.times_succ, times_eq_mapM read s count, List.replicate_succ, List.mapM_cons]

theorem readVector_eq_ok_iff {xs : List Single} :
    readValue S L data (room + 1) (.vector xs) c = (.ok v, c') ↔ ∃ vs, v = .tuple vs ∧
      (List.replicate xs.length (.leaf (.number .float32))).mapM (readValue S L data room) c = (.ok vs, c') := by
  rw [readValue, times_eq_mapM, Reading.map_eq_ok_iff]
  exact ⟨fun ⟨vs, h, hv⟩ => ⟨vs, hv.symm, h⟩, fun ⟨vs, hv, h⟩ => ⟨vs, h, hv.symm⟩⟩

theorem readSequence_eq_ok_iff {element : Shape} :
    readValue S L data (room + 1) (.sequence element) c = (.ok v, c') ↔ ∃ vs m, v = .sequence element vs ∧
      vs.length ≤ L.maxElements ∧ vs.length < Nat.pow 256 4 ∧ Passes data c (littleEndian 4 vs.length) m ∧
      (List.replicate vs.length element).mapM (readValue S L data room) m = (.ok vs, c') := by
  rw [readValue, Reading.bind_eq_ok_iff]
  constructor
  · rintro ⟨count, m, hcount, h⟩
    obtain ⟨vs, hvs, rfl⟩ := Reading.map_eq_ok_iff.1 h
    rw [times_eq_mapM] at hvs
    have length := Reading.length_of_mapM_eq_ok hvs
    rw [List.length_replicate] at length
    subst length
    obtain ⟨few, small, front⟩ := readCount_eq_ok_iff.1 hcount
    exact ⟨vs, m, rfl, few, small, front, hvs⟩
  · rintro ⟨vs, m, rfl, few, small, front, hvs⟩
    refine ⟨vs.length, m, readCount_eq_ok_iff.2 ⟨few, small, front⟩, ?_⟩
    rw [times_eq_mapM]
    exact Reading.map_eq_ok_iff.2 ⟨vs, hvs, rfl⟩

theorem readOptional_eq_ok_iff {content : Shape} :
    readValue S L data (room + 1) (.optional content) c = (.ok v, c') ↔
      (v = .absent content ∧ Passes data c [0] c') ∨
        ∃ w m, v = .present content w ∧ Passes data c [1] m ∧ readValue S L data room content m = (.ok w, c') := by
  rw [readValue, Reading.bind_eq_ok_iff]
  constructor
  · rintro ⟨flag, m, hflag, h⟩
    have front := Cursor.u8_eq_ok_iff.1 hflag
    split at h
    · obtain ⟨rfl, rfl⟩ := Reading.pure_eq_ok_iff.1 h
      exact .inl ⟨rfl, front⟩
    · obtain ⟨w, hw, rfl⟩ := Reading.map_eq_ok_iff.1 h
      exact .inr ⟨w, m, rfl, front, hw⟩
    · exact absurd h Reading.throw_ne_ok
  · rintro (⟨rfl, front⟩ | ⟨w, m, rfl, front, hw⟩)
    · exact ⟨0, c', Cursor.u8_eq_ok_iff.2 front, rfl⟩
    · exact ⟨1, m, Cursor.u8_eq_ok_iff.2 front, Reading.map_eq_ok_iff.2 ⟨w, hw, rfl⟩⟩

end Shapes

end Packed
end AssetRecords
