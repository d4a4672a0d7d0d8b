import AssetRecords.Asset.Grammar
import AssetRecords.Proofs.Packed.Parts
/-!
# Atoms — the least parts of asset files

A text, a number and a run of singles are each read exactly where their bytes stand.
-/
namespace AssetRecords
namespace Asset

open Cursor (Passes)

/-- A text behind its length. -/
def textBytes (s : String) : Bytes := littleEndian 2 (Utf8.encode s.toList).length ++ Utf8.encode s.toList

/-- The length of a text fits its two bytes. -/
def FitsText (s : String) : Prop := (Utf8.encode s.toList).length ≤ 65535

instance (s : String) : Decidable (FitsText s) := inferInstanceAs (Decidable (_ ≤ 65535))

/-- A single as a buffer of singles stores it. -/
def stored (x : Single) : ScalarType.float32.Bits := x.bits

def ofStored (bits : ScalarType.float32.Bits) : Single := ⟨bits⟩

def singleBytes (x : Single) : Bytes := ScalarType.bytesOf .float32 (stored x)

def singlesBytes {count : Nat} (xs : Vector Single count) : Bytes := xs.toList.flatMap singleBytes

section Atoms

variable {data : Bytes} {c c' : Cursor}

theorem text_eq_ok_iff {s : String} :
    Cursor.string16 data c = (.ok s, c') ↔ FitsText s ∧ Passes data c (textBytes s) c' := by
  have small : (Utf8.encode s.toList).length < Nat.pow 256 2 ↔ FitsText s := Nat.lt_succ_iff
  rw [Packed.string16_eq_ok_iff]
  constructor
  · rintro ⟨bytes, written, passes⟩
    obtain ⟨fits, rfl⟩ := Packed.writeText_eq_ok_iff.1 written
    exact ⟨small.1 fits, passes⟩
  · rintro ⟨fits, passes⟩
    exact ⟨_, Packed.writeText_eq_ok_iff.2 ⟨small.2 fits, rfl⟩, passes⟩

theorem single_eq_ok_iff {x : Single} : Cursor.single data c = (.ok x, c') ↔ Passes data c (singleBytes x) c' := by
  rw [Cursor.single, Reading.map_eq_ok_iff]
  constructor
  · rintro ⟨n, h, rfl⟩
    obtain ⟨small, passes⟩ := Cursor.natural_eq_ok_iff.1 h
    have bits : (BitVec.ofNat FloatFormat.single.width n).toNat = n := by
      rw [BitVec.toNat_ofNat]
      exact Nat.mod_eq_of_lt small
    show Passes data c (littleEndian 4 (BitVec.ofNat FloatFormat.single.width n).toNat) c'
    rwa [bits]
  · intro passes
    refine ⟨x.bits.toNat, Cursor.natural_eq_ok_iff.2 ⟨x.bits.isLt, passes⟩, ?_⟩
    rw [BitVec.ofNat_toNat, BitVec.setWidth_eq]

theorem int_eq_ok_iff {n : Int32} :
    Cursor.i32 data c = (.ok n, c') ↔ Passes data c (littleEndian 4 n.toUInt32.toNat) c' := by
  rw [Cursor.i32, Reading.map_eq_ok_iff]
  constructor
  · rintro ⟨n, h, rfl⟩
    obtain ⟨small, passes⟩ := Cursor.natural_eq_ok_iff.1 h
    have number : (UInt32.ofNat n).toInt32.toUInt32.toNat = n := by
      rw [UInt32.toUInt32_toInt32, UInt32.toNat_ofNat', Nat.mod_eq_of_lt small]
    rwa [number]
  · intro passes
    refine ⟨n.toUInt32.toNat, Cursor.natural_eq_ok_iff.2 ⟨n.toUInt32.toNat_lt, passes⟩, ?_⟩
    rw [UInt32.ofNat_toNat, Int32.toInt32_toUInt32]

/-- The numbers that stand in bytes, one by one. -/
theorem readElements_eq_ofFn {type : ScalarType} : ∀ (count : Nat) (bytes : Bytes),
    Buffer.readElements type count bytes =
      List.ofFn fun i : Fin count => type.bitsOf ((bytes.drop (i.val * type.size)).take type.size)
  | 0, _ => rfl
  | count + 1, bytes => by
    rw [Buffer.readElements, readElements_eq_ofFn count, List.ofFn_succ]
    simp only [Fin.val_zero, Nat.zero_mul, List.drop_zero, Fin.val_succ, Nat.succ_mul, List.drop_drop,
      Nat.add_comm type.size]

/-- The singles that a run of bytes is read as. -/
def singlesAt (count : Nat) (bytes : Bytes) : Vector Single count :=
  .ofFn fun i => ofStored (ScalarType.bitsOf .float32 ((bytes.drop (i.val * 4)).take 4))

theorem toList_singlesAt (count : Nat) (bytes : Bytes) :
    (singlesAt count bytes).toList = (Buffer.readElements .float32 count bytes).map ofStored := by
  rw [readElements_eq_ofFn, List.map_ofFn, singlesAt, Vector.toList_ofFn]
  rfl

theorem singlesBytes_eq {count : Nat} (xs : Vector Single count) :
    singlesBytes xs = (xs.toList.map stored).flatMap (ScalarType.bytesOf .float32) := by
  rw [List.flatMap_map]
  rfl

theorem singlesBytes_singlesAt {count : Nat} {bytes : Bytes} (length : bytes.length = count * 4) :
    singlesBytes (singlesAt count bytes) = bytes := by
  have back : stored ∘ ofStored = id := rfl
  rw [singlesBytes_eq, toList_singlesAt, List.map_map, back, List.map_id]
  exact Buffer.flatMap_readElements count bytes length

theorem length_singlesBytes {count : Nat} (xs : Vector Single count) : (singlesBytes xs).length = count * 4 := by
  rw [singlesBytes_eq, Buffer.length_flatMap_bytesOf, List.length_map, Vector.length_toList]
  rfl

theorem singlesAt_singlesBytes {count : Nat} (xs : Vector Single count) : singlesAt count (singlesBytes xs) = xs := by
  have read := Buffer.readElements_flatMap (xs.toList.map stored)
  have back : ofStored ∘ stored = id := rfl
  rw [List.length_map, Vector.length_toList, ← singlesBytes_eq] at read
  apply Vector.toList_inj.1
  rw [toList_singlesAt, read, List.map_map, back, List.map_id]

theorem singles_eq_ok_iff {count : Nat} {xs : Vector Single count} :
    Cursor.singles data count c = (.ok xs, c') ↔ Passes data c (singlesBytes xs) c' := by
  rw [Cursor.singles, Reading.bind_eq_ok_iff]
  constructor
  · rintro ⟨bytes, m, taken, h⟩
    obtain ⟨rfl, rfl⟩ := Reading.pure_eq_ok_iff.1 h
    obtain ⟨length, passes⟩ := Cursor.take_eq_ok_iff.1 taken
    show Passes data c (singlesBytes (singlesAt count bytes)) c'
    rwa [singlesBytes_singlesAt length]
  · intro passes
    have taken := Cursor.take_eq_ok_iff.2 ⟨length_singlesBytes xs, passes⟩
    exact ⟨_, c', taken, Reading.pure_eq_ok_iff.2 ⟨(singlesAt_singlesBytes xs).symm, rfl⟩⟩

end Atoms
end Asset
end AssetRecords
