import AssetRecords.Packed.Reader
import AssetRecords.Proofs.Consumption
/-!
# Consumption — the packed reader depends on the bytes that it takes

Whatever the shape, a value is read from its own bytes (`consumes_value`).  Of data that is a value no proper front is
one (`read_take`), and nothing may be put behind it (`read_append`).
-/
namespace AssetRecords
namespace Packed

open Cursor (consumes_take consumes_u8 consumes_u16 consumes_u32 consumes_scalar consumes_string16)
open Reading (Consumes)

variable (S : Schema) (L : Limits)

theorem consumes_leaf (type : LeafType) : Consumes 0 fun data => readLeaf data type := by
  cases type with
  | bool =>
    refine consumes_u8.any.front fun byte => ?_
    split
    · exact .pure _
    · exact .pure _
    · exact .throw _
  | number type => exact ((consumes_scalar type).map _).any
  | text => exact consumes_string16.map _

theorem consumes_count : Consumes 0 (readCount L) :=
  consumes_u32.any.front fun count => (Consumes.lift (L.checkCount count.toNat)).bind_still fun _ _ => rfl

theorem consumes_buffer : Consumes 0 (readBuffer L) := by
  refine consumes_u8.any.front fun tag => ?_
  cases ScalarType.ofTag? tag with
  | none => exact .throw _
  | some type =>
    exact (consumes_count L).front fun count => Consumes.any ((consumes_take (count * type.size)).bind_still
      fun bytes c => by rw [Reading.liftM_apply])

/-- **A value is read from its own bytes**, whatever stands behind them. -/
theorem consumes_value (room : Nat) : ∀ shape : Shape, Consumes 0 fun data => readValue S L data room shape := by
  induction room with
  | zero => exact fun _ => .throw _
  | succ room ih =>
    intro shape
    cases shape with
    | leaf type => exact (consumes_leaf type).map _
    | enum table initial =>
      exact Consumes.any (consumes_u16.front fun ordinal => (Consumes.lift (table.ofOrdinal ordinal.toNat)).bind_still
        fun _ _ => rfl)
    | record name =>
      exact (Consumes.mapM fun f _ => (ih f.shape).bind_still fun _ _ => rfl).bind_still fun _ _ => rfl
    | tuple elements => exact (Consumes.mapM fun e _ => ih e).map _
    | vector xs => exact Consumes.any (((ih _).times xs.length).map _)
    | numbers type =>
      exact (consumes_count L).front fun count => Consumes.any ((consumes_take _).bind_still fun _ _ => rfl)
    | sequence element => exact (consumes_count L).front fun count => Consumes.any (((ih element).times count).map _)
    | buffer => exact (consumes_buffer L).map _
    | optional content =>
      refine consumes_u8.any.front fun flag => ?_
      split
      · exact .pure _
      · exact (ih content).map _
      · exact .throw _

variable {S L} {shape : Shape} {b : Bytes} {v : Value}

/-- What is read has taken all the bytes. -/
theorem consumed_of_read (h : read S L shape b = .ok v) :
    Reading.Consumed (fun data => readValue S L data (L.maxDepth + 1) shape) 0 b {} v ⟨b.length⟩ := by
  unfold read at h
  rcases run : readValue S L b (L.maxDepth + 1) shape {} with ⟨e | w, c⟩
  · rw [run] at h
    cases h
  · simp only [run] at h
    split at h
    · rename_i atEnd
      cases h
      have consumed := (consumes_value S L (L.maxDepth + 1) shape).consumed (Nat.zero_le _) run
      have stop : c.pos = b.length := Nat.le_antisymm consumed.inside (of_decide_eq_true atEnd)
      obtain rfl : c = ⟨b.length⟩ := by rw [← stop]
      exact consumed
    · cases h

/-- **Every proper front of what is read is told to be too short.** -/
theorem read_take (h : read S L shape b = .ok v) {k : Nat} (hk : k < b.length) :
    ∃ e, read S L shape (b.take k) = .error e ∧ e.EndsAt k := by
  obtain ⟨e, stop, fails, ends⟩ := (consumed_of_read h).short (Nat.zero_le k) hk
  exact ⟨e, by rw [read, fails], ends⟩

/-- **Whatever stands behind what is read is told to be too much.** -/
theorem read_append (h : read S L shape b = .ok v) {rest : Bytes} (more : rest ≠ []) :
    read S L shape (b ++ rest) = .error (.malformed (.trailingBytes rest.length b.length)) := by
  have front : b.take b.length <+: b ++ rest := by
    rw [List.take_length]
    exact List.prefix_append b rest
  have run := (consumed_of_read h).alike front
  have long : 0 < rest.length := List.length_pos_iff.2 more
  unfold read
  simp only [run, Cursor.isAtEnd, Cursor.remaining, List.length_append]
  rw [if_neg (by rw [decide_eq_true_iff]; omega), Nat.add_sub_cancel_left]

end Packed
end AssetRecords
