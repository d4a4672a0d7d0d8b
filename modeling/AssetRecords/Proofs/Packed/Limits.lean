import AssetRecords.Proofs.Allowance
import AssetRecords.Proofs.Packed.RoundTrip
/-!
# Limits — the packed reader keeps to its limits and does nothing else with them

What is read is held within the limits (`held_of_readValue`), and limits that allow more change nothing about it
(`read_mono`).
-/
namespace AssetRecords
namespace Packed

open Reading (Follows follows_throw follows_checkCount)

variable {S : Schema} {L L' : Limits} {data : Bytes}

theorem follows_count (le : L ≤ L') : Follows (readCount L data) (readCount L' data) :=
  .behind fun _ => (follows_checkCount le _).bind fun _ => .rfl

theorem follows_buffer (le : L ≤ L') : Follows (readBuffer L data) (readBuffer L' data) := by
  refine .behind fun tag => ?_
  cases ScalarType.ofTag? tag with
  | none => exact follows_throw _
  | some type => exact (follows_count le).bind fun _ => .rfl

theorem follows_value (le : L ≤ L') : ∀ {room room' : Nat}, room ≤ room' → ∀ shape,
    Follows (readValue S L data room shape) (readValue S L' data room' shape)
  | 0, _, _, _ => follows_throw _
  | _ + 1, 0, more, _ => absurd more (Nat.not_succ_le_zero _)
  | room + 1, room' + 1, more, shape => by
    have ih := fun shape => follows_value le (Nat.le_of_succ_le_succ more) shape
    cases shape with
    | leaf type => exact .rfl
    | enum table initial => exact .rfl
    | record name => exact (Follows.mapM fun f _ => (ih f.shape).bind fun _ => .rfl).bind fun _ => .rfl
    | tuple elements => exact (Follows.mapM fun e _ => ih e).map _
    | vector xs => exact ((ih _).times _).map _
    | numbers type => exact (follows_count le).bind fun _ => .rfl
    | sequence element => exact (follows_count le).bind fun count => ((ih element).times count).map _
    | buffer => exact (follows_buffer le).map _
    | optional content =>
      refine .behind fun flag => ?_
      split
      · exact .rfl
      · exact (ih content).map _
      · exact follows_throw _

/-- **What is read is held within the limits.** -/
theorem held_of_readValue : ∀ {room : Nat} {shape : Shape} {v : Value} {c c' : Cursor},
    readValue S L data room shape c = (.ok v, c') → v.Held 0 L.maxElements room
  | 0, _, _, _, _, h => absurd h Reading.throw_ne_ok
  | room + 1, shape, v, c, c', h => by
    have all : ∀ {shapes : List Shape} {vs : List Value} {c c' : Cursor},
        shapes.mapM (readValue S L data room) c = (.ok vs, c') → ∀ v ∈ vs, v.Held 0 L.maxElements room :=
      Reading.forall_of_mapM_eq_ok fun _ _ => held_of_readValue
    have block : ∀ type ns, v = .numbers type ns → ns ≠ [] → 0 ≤ room := fun _ _ _ _ => Nat.zero_le room
    cases shape with
    | leaf type =>
      obtain ⟨l, -, rfl⟩ := Reading.map_eq_ok_iff.1 h
      exact Value.held_of_parts (Nat.zero_le _) nofun block
    | enum table initial =>
      obtain ⟨ordinal, variant, rfl, -⟩ := readEnum_eq_ok_iff.1 h
      exact Value.held_of_parts (Nat.zero_le _) nofun block
    | record name =>
      obtain ⟨vs, rfl, hvs⟩ := readRecord_eq_ok_iff.1 h
      refine Value.held_of_parts (Nat.zero_le _) (fun p hp => ?_) block
      obtain ⟨⟨key, p⟩, field, rfl⟩ := List.mem_map.1 hp
      exact all hvs p (List.of_mem_zip field).2
    | tuple elements =>
      obtain ⟨vs, hvs, rfl⟩ := Reading.map_eq_ok_iff.1 h
      exact Value.held_of_parts (Nat.zero_le _) (all hvs) block
    | vector xs =>
      obtain ⟨vs, rfl, hvs⟩ := readVector_eq_ok_iff.1 h
      exact Value.held_of_parts (Nat.zero_le _) (all hvs) block
    | numbers type =>
      obtain ⟨ns, rfl, few, -⟩ := readNumbers_eq_ok_iff.1 h
      exact Value.held_of_parts few nofun block
    | sequence element =>
      obtain ⟨vs, m, rfl, few, -, -, hvs⟩ := readSequence_eq_ok_iff.1 h
      exact Value.held_of_parts few (all hvs) block
    | buffer =>
      obtain ⟨b, hb, rfl⟩ := Reading.map_eq_ok_iff.1 h
      obtain ⟨-, few, -⟩ := readBuffer_eq_ok_iff.1 hb
      exact Value.held_of_parts few nofun block
    | optional content =>
      rcases readOptional_eq_ok_iff.1 h with ⟨rfl, -⟩ | ⟨w, m, rfl, -, hw⟩
      · exact Value.held_of_parts (Nat.zero_le _) nofun block
      · exact Value.held_of_parts (Nat.zero_le _) (List.forall_mem_singleton.2 (held_of_readValue hw)) block

variable {shape : Shape} {v : Value}

/-- Limits that allow more change nothing about what is read. -/
theorem read_mono (le : L ≤ L') (h : read S L shape data = .ok v) : read S L' shape data = .ok v := by
  obtain ⟨c, run, ended⟩ := read_eq_ok_iff.1 h
  exact read_eq_ok_iff.2 ⟨c, (follows_value le (Nat.succ_le_succ le.1) shape).follow run, ended⟩

theorem held_of_read (h : read S L shape data = .ok v) : v.Held 0 L.maxElements (L.maxDepth + 1) := by
  obtain ⟨c, run, -⟩ := read_eq_ok_iff.1 h
  exact held_of_readValue run

end Packed
end AssetRecords
