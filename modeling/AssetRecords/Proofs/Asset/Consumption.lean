import AssetRecords.Asset.Level
import AssetRecords.Asset.Placeholder
import AssetRecords.Proofs.Armature.Chains
import AssetRecords.Proofs.Consumption
/-!
# Consumption — the readers of assets depend on the bytes that they take

The one check that looks further ahead is `ensureRecords`, and what it looks for is taken by the reads behind it
(`consumes_ensured`): the least number of bytes that a frame, a vector, a rotation or the weights of a vertex take is the
size that is asked for.
-/
namespace AssetRecords

open Cursor (consumes_string16 consumes_u8 consumes_u16 consumes_u32 consumes_i32 consumes_single consumes_singles
  consumes_buffer)
open Reading (Consumes)

namespace Asset

theorem ensureRecords_apply (L : Limits) (data : Bytes) (count size : Nat) (c : Cursor) :
    ensureRecords L data count size c =
      match L.checkCount count with
      | .error e => (.error e, c)
      | .ok _ =>
        if c.remaining data < count * size then (.error (.unexpectedEnd c.pos (count * size) data.length), c)
        else (.ok ⟨⟩, c) := by
  unfold ensureRecords
  rw [Reading.bind_apply, Reading.liftM_apply]
  cases L.checkCount count with
  | error e => rfl
  | ok _ =>
    show (if c.remaining data < count * size then throw (.unexpectedEnd c.pos (count * size) data.length)
      else pure ⟨⟩ : Reading PUnit) c = _
    split <;> rfl

/-- To look for bytes that are taken right behind changes nothing about which bytes decide. -/
theorem consumes_ensured {α : Type} {L : Limits} {count size least : Nat} {read : Bytes → Reading α}
    (h : Consumes least read) (enough : count * size ≤ least) :
    Consumes least fun data => ensureRecords L data count size >>= fun _ => read data := by
  cases admitted : L.checkCount count with
  | error e =>
    refine ⟨fun _ run => ?_⟩
    rw [Reading.bind_apply, ensureRecords_apply, admitted] at run
    cases run
  | ok _ =>
    have looked : ∀ (data : Bytes) (c : Cursor), (ensureRecords L data count size >>= fun _ => read data) c =
        if c.remaining data < count * size then (.error (.unexpectedEnd c.pos (count * size) data.length), c)
        else read data c := by
      intro data c
      rw [Reading.bind_apply, ensureRecords_apply, admitted]
      by_cases missing : c.remaining data < count * size
      · simp only [if_pos missing]
      · simp only [if_neg missing]
    refine ⟨fun {data c a c'} hc run => ?_⟩
    rw [looked] at run
    split at run
    · cases run
    obtain ⟨progress, inside, alike, short⟩ := h.consumed hc run
    refine ⟨progress, inside, fun {other} front => ?_, fun {k} low high => ?_⟩
    · have long := front.length_le
      rw [List.length_take] at long
      rw [looked, if_neg (by rw [Cursor.remaining]; omega), alike front]
    · have length : (data.take k).length = k := by
        rw [List.length_take]
        omega
      rw [looked, Cursor.remaining, length]
      by_cases missing : k - c.pos < count * size
      · rw [if_pos missing]
        exact ⟨_, c, rfl, c.pos, count * size, rfl, low, by omega⟩
      · rw [if_neg missing]
        exact short low high

variable (L : Limits)

theorem consumes_assetBuffer (type : ScalarType) (count : Nat) : Consumes 0 fun data => buffer L data type count :=
  (Consumes.lift (L.checkCount count)).front fun _ => (consumes_buffer type count).any

theorem readContent_eq_ok_iff {α : Type} {read : Bytes → Reading α} {content : Content} {a : α} :
    readContent read content = .ok a ↔ ∃ c, read content.data {} = (.ok a, c) := by
  unfold readContent
  rcases read content.data {} with ⟨e | b, c⟩
  · exact ⟨nofun, fun ⟨_, h⟩ => nomatch h⟩
  · constructor
    · rintro ⟨⟩
      exact ⟨c, rfl⟩
    · rintro ⟨_, ⟨⟩⟩
      rfl

end Asset

open Asset (consumes_ensured consumes_assetBuffer)

namespace Armature

theorem consumes_joint (parent : Option Nat) : Consumes 0 fun data => readJoint data parent :=
  consumes_string16.front fun _ => (consumes_singles 16).any.front fun _ => (consumes_singles 16).any.front fun _ =>
    Consumes.any (consumes_u16.bind_still fun _ _ => rfl)

theorem consumes_chains (L : Limits) (declared left : Nat) : ∀ (roots : Nat) (stack : List (Nat × Nat))
    (joints : List Joint), Consumes 0 fun data => readChains L data declared left roots stack joints := by
  induction left with
  | zero =>
    intro roots stack joints
    by_cases more : stack ≠ [] ∨ roots ≠ 0
    · simp only [readChains_zero more]
      exact .throw _
    · obtain ⟨rfl, rfl⟩ : stack = [] ∧ roots = 0 := by simpa [not_or] using more
      exact .still fun _ => rfl
  | succ left ih =>
    intro roots stack joints
    by_cases more : stack ≠ [] ∨ roots ≠ 0
    · simp only [readChains_eq_bind more]
      refine (consumes_joint _).front fun joint => ?_
      split
      · exact .throw _
      · exact ih _ _ _
    · obtain ⟨rfl, rfl⟩ : stack = [] ∧ roots = 0 := by simpa [not_or] using more
      exact .still fun _ => rfl

theorem consumes_pose : Consumes 40 readPose :=
  (consumes_singles 3).bind fun _ => (consumes_singles 4).bind fun _ => (consumes_singles 3).bind_still fun _ _ => rfl

theorem consumes_entries (joints count : Nat) : ∀ poses : Array JointPose,
    Consumes (count * poseSize) fun data => readEntries data joints count poses := by
  induction count with
  | zero =>
    intro poses
    rw [Nat.zero_mul]
    exact .pure poses
  | succ count ih =>
    intro poses
    have entry : Consumes (2 + (40 + count * poseSize)) fun data => readEntries data joints (count + 1) poses :=
      consumes_u16.bind fun _ => .unless _ _ (consumes_pose.bind fun _ => ih _)
    refine entry.mono ?_
    rw [Nat.succ_mul]
    simp only [poseSize]
    omega

theorem consumes_frame (joints : Nat) : Consumes (joints * poseSize) fun data => readFrame data joints :=
  (consumes_entries joints joints _).bind_still fun _ _ => rfl

theorem consumes_track {α : Type} (L : Limits) {frames size : Nat} {read : Bytes → Reading α}
    (h : Consumes size read) : Consumes 0 fun data => readTrack L data frames size (read data) := by
  refine consumes_u8.any.front fun flag => ?_
  by_cases none : flag = 0
  · simp only [if_pos none]
    exact .pure _
  · simp only [if_neg none]
    exact Consumes.any (consumes_ensured ((h.times frames).map some) (Nat.le_refl _))

theorem consumes_action (L : Limits) (joints : Nat) : Consumes 0 fun data => readAction L data joints := by
  refine consumes_string16.front fun name => consumes_i32.any.front fun length => .unless _ _ ?_
  have frames := (consumes_frame joints).times (length.toInt.toNat + 1)
  refine .any (consumes_ensured (((Consumes.lift _).bind fun _ => frames.front fun _ =>
    (consumes_track L (consumes_singles 3)).front fun _ => (consumes_track L (consumes_singles 4)).bind_still
      fun _ _ => rfl).mono (Nat.le_of_eq (Nat.zero_add _).symm)) (Nat.le_refl _))

theorem consumes_data (L : Limits) : Consumes 0 (readData L) :=
  consumes_string16.front fun _ => consumes_u16.any.front fun declared => consumes_u16.any.front fun roots =>
    (consumes_chains L declared.toNat declared.toNat roots.toNat [] []).front fun _ =>
      consumes_u16.any.front fun count =>
        Consumes.any (((consumes_action L declared.toNat).times count.toNat).bind_still fun _ _ => rfl)

end Armature

namespace Mesh

theorem consumes_data (L : Limits) : Consumes 0 (readData L) := by
  refine consumes_string16.front fun _ => (consumes_singles 16).any.front fun _ => consumes_u32.any.front fun count =>
    (consumes_assetBuffer L _ _).front fun _ => (consumes_assetBuffer L _ _).front fun _ => consumes_u8.any.front
      fun flag => ?_
  -- the coordinates are passed to what is behind them, whether they are there or not
  by_cases none : flag = 0
  · simp only [if_pos none, pure_bind]
    exact consumes_u32.any.front fun _ => (consumes_assetBuffer L _ _).bind_still fun _ _ => rfl
  · simp only [if_neg none]
    exact ((consumes_assetBuffer L _ _).map some).front fun _ => consumes_u32.any.front fun _ =>
      (consumes_assetBuffer L _ _).bind_still fun _ _ => rfl

end Mesh

namespace Level

theorem consumes_data (L : Limits) : Consumes 0 (readData L) :=
  consumes_string16.front fun _ => consumes_u16.any.front fun count =>
    Consumes.any (((Mesh.consumes_data L).times count.toNat).bind_still fun _ _ => rfl)

end Level

namespace VertexWeight

theorem consumes_first : Consumes 1 readFirst :=
  consumes_u8.front fun count => Consumes.any
    ((Consumes.times (consumes_u16.bind fun _ => consumes_single.bind_still fun _ _ => rfl) count.toNat).bind_still
      fun _ _ => rfl)

end VertexWeight

namespace Placeholder

theorem consumes_data (L : Limits) : Consumes 0 (readData L) :=
  consumes_string16.front fun _ => (consumes_singles 16).any.front fun _ => consumes_u32.any.front fun count =>
    (consumes_assetBuffer L _ _).front fun _ => (consumes_assetBuffer L _ _).front fun _ =>
      .any (consumes_ensured ((VertexWeight.consumes_first.times count.toNat).front fun _ =>
        consumes_u32.any.front fun _ => (consumes_assetBuffer L _ _).bind_still fun _ _ => rfl) (Nat.le_refl _))

end Placeholder
end AssetRecords
