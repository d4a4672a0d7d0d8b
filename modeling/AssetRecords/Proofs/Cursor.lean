import AssetRecords.Proofs.Outcome
/-!
# Cursor — the bytes between two cursors

`Passes data c bytes c'` says that `bytes` stand in `data` between the cursors `c` and `c'`.  A read of a number or of
so many bytes succeeds exactly where the bytes of its answer are passed (`take_eq_ok_iff`, `natural_eq_ok_iff` and those
built on it), so that one statement serves for reading what was written and for writing what was read.
-/
namespace AssetRecords
namespace Cursor

/-- Between two cursors stand these bytes. -/
def Passes (data : Bytes) (c : Cursor) (bytes : Bytes) (c' : Cursor) : Prop :=
  ∃ before after, data = before ++ bytes ++ after ∧ c.pos = before.length ∧ c'.pos = before.length + bytes.length

section Passing

variable {data a b bytes : Bytes} {c m c' : Cursor}

theorem Passes.nil (h : c.pos ≤ data.length) : Passes data c [] c :=
  ⟨data.take c.pos, data.drop c.pos, by simp, by simp [h], by simp [h]⟩

theorem Passes.start_le (h : Passes data c bytes c') : c.pos ≤ data.length := by
  obtain ⟨before, after, rfl, hc, -⟩ := h
  simp only [hc, List.length_append]
  omega

theorem Passes.stop_le (h : Passes data c bytes c') : c'.pos ≤ data.length := by
  obtain ⟨before, after, rfl, -, hc'⟩ := h
  simp only [hc', List.length_append]
  omega

theorem Passes.append (h : Passes data c a m) (h' : Passes data m b c') : Passes data c (a ++ b) c' := by
  obtain ⟨before, rest, rfl, hc, hm⟩ := h
  obtain ⟨middle, after, hdata, hm', hc'⟩ := h'
  rw [hm', ← List.length_append] at hm
  rw [List.append_assoc middle] at hdata
  obtain ⟨rfl, rfl⟩ := List.append_inj hdata hm.symm
  exact ⟨before, after, by simp only [List.append_assoc], hc, by simp only [hc', List.length_append, Nat.add_assoc]⟩

theorem Passes.split (h : Passes data c (a ++ b) c') : ∃ m, Passes data c a m ∧ Passes data m b c' := by
  obtain ⟨before, after, rfl, hc, hc'⟩ := h
  refine ⟨⟨before.length + a.length⟩, ⟨before, b ++ after, ?_, hc, rfl⟩, ⟨before ++ a, after, ?_, ?_, ?_⟩⟩
  · simp only [List.append_assoc]
  · simp only [List.append_assoc]
  · rw [List.length_append]
  · simp only [hc', List.length_append, Nat.add_assoc]

theorem Passes.nil_iff : Passes data c [] c' ↔ c' = c ∧ c.pos ≤ data.length := by
  constructor
  · intro h
    refine ⟨?_, h.start_le⟩
    obtain ⟨before, after, -, hc, hc'⟩ := h
    cases c; cases c'
    simp_all
  · rintro ⟨rfl, h⟩
    exact .nil h

end Passing

/-- The bytes taken are those that the cursor passes. -/
theorem take_eq_ok_iff {data bytes : Bytes} {count : Nat} {c c' : Cursor} :
    take data count c = (.ok bytes, c') ↔ bytes.length = count ∧ Passes data c bytes c' := by
  constructor
  · intro h
    by_cases fits : c.pos + count ≤ data.length
    · rw [take_eq_ok fits] at h
      cases h
      have length : ((data.drop c.pos).take count).length = count := by
        rw [List.length_take, List.length_drop]
        omega
      refine ⟨length, data.take c.pos, data.drop (c.pos + count), ?_, ?_, ?_⟩
      · rw [List.append_assoc, ← List.drop_drop, List.take_append_drop, List.take_append_drop]
      · rw [List.length_take]
        omega
      · show c.pos + count = _
        rw [length, List.length_take]
        omega
    · rw [take_eq_error (by omega)] at h
      cases h
  · rintro ⟨rfl, before, after, rfl, hc, hc'⟩
    rw [take_eq_ok (by simp only [List.length_append]; omega), hc, List.append_assoc, List.drop_left, List.take_left]
    cases c'
    simp_all

theorem natural_eq_ok_iff {data : Bytes} {size n : Nat} {c c' : Cursor} :
    natural data size c = (.ok n, c') ↔ n < Nat.pow 256 size ∧ Passes data c (littleEndian size n) c' := by
  rw [natural, Reading.map_eq_ok_iff]
  constructor
  · rintro ⟨bytes, h, rfl⟩
    obtain ⟨rfl, passes⟩ := take_eq_ok_iff.1 h
    exact ⟨ofLittleEndian_lt bytes, by rwa [littleEndian_ofLittleEndian]⟩
  · rintro ⟨small, passes⟩
    refine ⟨littleEndian size n, take_eq_ok_iff.2 ⟨length_littleEndian size n, passes⟩, ?_⟩
    rw [ofLittleEndian_littleEndian, Nat.mod_eq_of_lt small]

theorem u8_eq_ok_iff {data : Bytes} {x : UInt8} {c c' : Cursor} :
    u8 data c = (.ok x, c') ↔ Passes data c [x] c' := by
  rw [u8, Reading.map_eq_ok_iff]
  constructor
  · rintro ⟨n, h, rfl⟩
    exact (natural_eq_ok_iff.1 h).2
  · intro passes
    refine ⟨x.toNat, natural_eq_ok_iff.2 ⟨x.toNat_lt, ?_⟩, UInt8.ofNat_toNat⟩
    rwa [littleEndian, UInt8.ofNat_toNat]

theorem u16_eq_ok_iff {data : Bytes} {x : UInt16} {c c' : Cursor} :
    u16 data c = (.ok x, c') ↔ Passes data c (littleEndian 2 x.toNat) c' := by
  rw [u16, Reading.map_eq_ok_iff]
  constructor
  · rintro ⟨n, h, rfl⟩
    obtain ⟨small, passes⟩ := natural_eq_ok_iff.1 h
    rwa [UInt16.toNat_ofNat', Nat.mod_eq_of_lt small]
  · intro passes
    exact ⟨x.toNat, natural_eq_ok_iff.2 ⟨x.toNat_lt, passes⟩, UInt16.ofNat_toNat⟩

theorem u32_eq_ok_iff {data : Bytes} {x : UInt32} {c c' : Cursor} :
    u32 data c = (.ok x, c') ↔ Passes data c (littleEndian 4 x.toNat) c' := by
  rw [u32, Reading.map_eq_ok_iff]
  constructor
  · rintro ⟨n, h, rfl⟩
    obtain ⟨small, passes⟩ := natural_eq_ok_iff.1 h
    rwa [UInt32.toNat_ofNat', Nat.mod_eq_of_lt small]
  · intro passes
    exact ⟨x.toNat, natural_eq_ok_iff.2 ⟨x.toNat_lt, passes⟩, UInt32.ofNat_toNat⟩

theorem scalar_eq_ok_iff {data : Bytes} {type : ScalarType} {n : Scalar} {c c' : Cursor} :
    scalar data type c = (.ok n, c') ↔ n.type = type ∧ Passes data c n.toBytes c' := by
  rw [scalar, Reading.map_eq_ok_iff]
  constructor
  · rintro ⟨bytes, h, rfl⟩
    obtain ⟨length, passes⟩ := take_eq_ok_iff.1 h
    exact ⟨rfl, by rwa [Scalar.toBytes, ScalarType.bytesOf_bitsOf length]⟩
  · rintro ⟨rfl, passes⟩
    refine ⟨n.toBytes, take_eq_ok_iff.2 ⟨ScalarType.length_bytesOf _ _, passes⟩, ?_⟩
    rw [Scalar.toBytes, ScalarType.bitsOf_bytesOf]

end Cursor
end AssetRecords
