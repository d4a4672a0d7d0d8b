import AssetRecords.Proofs.Allowance
import AssetRecords.Proofs.Asset.Consumption
/-!
# Limits — the readers of assets do nothing with their limits but refuse

Limits that allow more change nothing about what is read from a file.
-/
namespace AssetRecords

open Reading (Follows follows_throw follows_checkCount)

variable {L L' : Limits} {data : Bytes}

namespace Asset

theorem follows_ensureRecords (le : L ≤ L') (count size : Nat) :
    Follows (ensureRecords L data count size) (ensureRecords L' data count size) :=
  (follows_checkCount le count).bind fun _ => .rfl

theorem follows_buffer (le : L ≤ L') (type : ScalarType) (count : Nat) :
    Follows (buffer L data type count) (buffer L' data type count) :=
  (follows_checkCount le count).bind fun _ => .rfl

theorem readContent_mono {α : Type} {read read' : Bytes → Reading α} {content : Content} {a : α}
    (h : ∀ data, Follows (read data) (read' data)) (decoded : readContent read content = .ok a) :
    readContent read' content = .ok a := by
  obtain ⟨c, run⟩ := readContent_eq_ok_iff.1 decoded
  exact readContent_eq_ok_iff.2 ⟨c, (h content.data).follow run⟩

end Asset

open Asset (follows_ensureRecords follows_buffer)

namespace Armature

/-- The stack of a hierarchy may grow as high as the depth that is allowed. -/
theorem follows_chains (le : L ≤ L') (declared : Nat) : ∀ (left roots : Nat) (stack : List (Nat × Nat))
    (joints : List Joint),
    Follows (readChains L data declared left roots stack joints) (readChains L' data declared left roots stack joints)
  | 0, roots, stack, joints => by
    by_cases more : stack ≠ [] ∨ roots ≠ 0
    · rw [readChains_zero more, readChains_zero more]
      exact .rfl
    · obtain ⟨rfl, rfl⟩ : stack = [] ∧ roots = 0 := by simpa [not_or] using more
      exact .rfl
  | left + 1, roots, stack, joints => by
    by_cases more : stack ≠ [] ∨ roots ≠ 0
    · rw [readChains_eq_bind more, readChains_eq_bind more]
      refine .behind fun joint => ?_
      by_cases deep : joint.childCount ≠ 0 ∧ L.maxDepth < stack.length + 1
      · rw [if_pos deep]
        exact follows_throw _
      · have shallow : ¬(joint.childCount ≠ 0 ∧ L'.maxDepth < stack.length + 1) := fun h =>
          deep ⟨h.1, Nat.lt_of_le_of_lt le.1 h.2⟩
        rw [if_neg deep, if_neg shallow]
        exact follows_chains le declared left _ _ _
    · obtain ⟨rfl, rfl⟩ : stack = [] ∧ roots = 0 := by simpa [not_or] using more
      exact .rfl

theorem follows_track {α : Type} (le : L ≤ L') (frames size : Nat) (read : Reading α) :
    Follows (readTrack L data frames size read) (readTrack L' data frames size read) := by
  refine .behind fun flag => ?_
  by_cases none : flag = 0
  · rw [if_pos none, if_pos none]
    exact .rfl
  · rw [if_neg none, if_neg none]
    exact (follows_ensureRecords le frames size).bind fun _ => .rfl

theorem follows_action (le : L ≤ L') (joints : Nat) : Follows (readAction L data joints) (readAction L' data joints) := by
  refine .behind fun name => .behind fun length => ?_
  by_cases negative : length.toInt < 0
  · simp only [if_pos negative]
    exact .rfl
  · simp only [if_neg negative]
    exact (follows_ensureRecords le _ _).bind fun _ => (follows_checkCount le _).bind fun _ => .behind fun _ =>
      (follows_track le _ _ _).bind fun _ => (follows_track le _ _ _).bind fun _ => .rfl

theorem follows_data (le : L ≤ L') : Follows (readData L data) (readData L' data) :=
  .behind fun _ => .behind fun declared => .behind fun _ => (follows_chains le _ _ _ _ _).bind fun _ =>
    .behind fun count => ((follows_action le declared.toNat).times count.toNat).bind fun _ => .rfl

end Armature

namespace Mesh

theorem follows_data (le : L ≤ L') : Follows (readData L data) (readData L' data) := by
  refine .behind fun _ => .behind fun _ => .behind fun _ => (follows_buffer le _ _).bind fun _ =>
    (follows_buffer le _ _).bind fun _ => .behind fun flag => ?_
  by_cases none : flag = 0
  · simp only [if_pos none]
    exact .behind fun _ => .behind fun _ => (follows_buffer le _ _).bind fun _ => .rfl
  · simp only [if_neg none]
    exact ((follows_buffer le _ _).map _).bind fun _ => .behind fun _ => (follows_buffer le _ _).bind fun _ => .rfl

end Mesh

namespace Level

theorem follows_data (le : L ≤ L') : Follows (readData L data) (readData L' data) :=
  .behind fun _ => .behind fun count => ((Mesh.follows_data le).times count.toNat).bind fun _ => .rfl

end Level

namespace Placeholder

theorem follows_data (le : L ≤ L') : Follows (readData L data) (readData L' data) :=
  .behind fun _ => .behind fun _ => .behind fun _ => (follows_buffer le _ _).bind fun _ =>
    (follows_buffer le _ _).bind fun _ => (follows_ensureRecords le _ _).bind fun _ => .behind fun _ =>
      .behind fun _ => (follows_buffer le _ _).bind fun _ => .rfl

end Placeholder
end AssetRecords
