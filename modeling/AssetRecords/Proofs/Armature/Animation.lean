import AssetRecords.Proofs.Armature.Clips
/-!
# Animation — the poses of a frame land at the joints that they name

An armature is read exactly where a skeleton and clips for it stand (`read_eq_ok_iff`), so that what is read of the
clips is what the grammar has in them.  The order of entries does not matter if each joint has one, and an entry for a
joint that there is not is never read over (`poses_by_index`).
-/
namespace AssetRecords

open Asset (FitsText textBytes text_eq_ok_iff int_eq_ok_iff)
open Cursor (Passes)

namespace Armature

/-- The name of an armature and its joints. -/
def readSkeleton (L : Limits) (data : Bytes) : Reading Armature := do
  let name ← Cursor.string16 data
  let declared := (← Cursor.u16 data).toNat
  let rootCount ← Cursor.u16 data
  let joints ← readChains L data declared declared rootCount.toNat [] []
  return { name, rootCount, joints }

/-- The animations behind a skeleton. -/
def readActions (L : Limits) (data : Bytes) (a : Armature) : Reading Armature := do
  let actions ← Asset.many data (readAction L data a.joints.length)
  return { a with actions }

theorem consumes_skeleton (L : Limits) : Reading.Consumes 0 (readSkeleton L) :=
  Cursor.consumes_string16.front fun _ => Cursor.consumes_u16.any.front fun declared =>
    Cursor.consumes_u16.any.front fun roots =>
      (consumes_chains L declared.toNat declared.toNat roots.toNat [] []).bind_still fun _ _ => rfl

/-- The joints that are declared are as many as those that are read. -/
theorem readData_eq (L : Limits) (data : Bytes) :
    readData L data = readSkeleton L data >>= readActions L data := by
  simp only [readData, readSkeleton, bind_assoc, pure_bind]
  refine bind_congr fun name => bind_congr fun declared => bind_congr fun roots => ?_
  funext c
  rw [Reading.bind_apply, Reading.bind_apply]
  rcases h : readChains L data declared.toNat declared.toNat roots.toNat [] [] c with ⟨e | joints, m⟩
  · rfl
  · obtain ⟨-, -, -, all, -⟩ := readChains_eq_ok_iff.1 h
    simp only [readActions, Asset.many, bind_assoc, all]

theorem actions_of_readSkeleton {L : Limits} {data : Bytes} {c c' : Cursor} {s : Armature}
    (h : readSkeleton L data c = (.ok s, c')) : s.actions = [] := by
  obtain ⟨name, c₁, -, h⟩ := Reading.bind_eq_ok_iff.1 h
  obtain ⟨declared, c₂, -, h⟩ := Reading.bind_eq_ok_iff.1 h
  obtain ⟨rootCount, c₃, -, h⟩ := Reading.bind_eq_ok_iff.1 h
  obtain ⟨joints, c₄, -, h⟩ := Reading.bind_eq_ok_iff.1 h
  obtain ⟨rfl, -⟩ := Reading.pure_eq_ok_iff.1 h
  rfl

/-- How an armature stands in the data of a file: its skeleton is read off a front, and clips follow. -/
structure Stands (L : Limits) (data front : Bytes) (clips : List Clip) (a : Armature) : Prop where
  skeleton : readSkeleton L data {} = (.ok { a with actions := [] }, ⟨front.length⟩)
  bytes : front ++ (littleEndian 2 clips.length ++ clips.flatMap Clip.wire) <+: data
  few : clips.length ≤ 65535
  shaped : ∀ k ∈ clips, k.Shaped L a.joints.length
  actions : clips.map (Clip.action a.joints.length) = a.actions

theorem readActions_eq_ok_iff {L : Limits} {data : Bytes} {s a : Armature} {c c' : Cursor} (hc : c.pos ≤ data.length) :
    readActions L data s c = (.ok a, c') ↔ ∃ clips : List Clip, clips.length ≤ 65535 ∧
      (∀ k ∈ clips, k.Shaped L s.joints.length) ∧ { s with actions := clips.map (Clip.action s.joints.length) } = a ∧
      Passes data c (littleEndian 2 clips.length ++ clips.flatMap Clip.wire) c' := by
  rw [readActions, Reading.bind_eq_ok_iff]
  constructor
  · rintro ⟨actions, m, hactions, h⟩
    obtain ⟨rfl, rfl⟩ := Reading.pure_eq_ok_iff.1 h
    obtain ⟨clips, ⟨few, each⟩, passes⟩ := (Asset.Reads.many (reads_action _) hc).1 hactions
    obtain ⟨shaped, rfl⟩ := Asset.forall₂_and_map_iff.1 each
    exact ⟨clips, few, shaped, rfl, passes⟩
  · rintro ⟨clips, few, shaped, rfl, passes⟩
    have each := (Asset.forall₂_and_map_iff (f := Clip.action s.joints.length)).2 ⟨shaped, rfl⟩
    exact ⟨_, c', (Asset.Reads.many (reads_action _) hc).2 ⟨clips, ⟨few, each⟩, passes⟩, rfl⟩

/-- **An armature is read exactly where it stands.** -/
theorem read_eq_ok_iff {L : Limits} {content : Content} {a : Armature} :
    read L content = .ok a ↔ ∃ front clips, Stands L content.data front clips a := by
  rw [read, Asset.readContent_eq_ok_iff]
  simp only [readData_eq, Reading.bind_eq_ok_iff]
  constructor
  · rintro ⟨c', s, c, skeleton, h⟩
    have inside := ((consumes_skeleton L).consumed (Nat.zero_le _) skeleton).inside
    obtain ⟨clips, few, shaped, rfl, before, after, data, start, -⟩ := (readActions_eq_ok_iff inside).1 h
    obtain ⟨p⟩ := c
    obtain rfl : p = before.length := start
    have bare : { s with actions := [] } = s := by rw [← actions_of_readSkeleton skeleton]
    have bytes : before ++ (littleEndian 2 clips.length ++ clips.flatMap Clip.wire) <+: content.data :=
      ⟨after, data.symm⟩
    exact ⟨before, clips, by rw [bare]; exact skeleton, bytes, few, shaped, rfl⟩
  · rintro ⟨front, clips, skeleton, ⟨after, data⟩, few, shaped, actions⟩
    have inside := ((consumes_skeleton L).consumed (Nat.zero_le _) skeleton).inside
    refine ⟨_, _, _, skeleton, (readActions_eq_ok_iff inside).2 ⟨clips, few, shaped, ?_, front, after, ?_, rfl, rfl⟩⟩
    · rw [actions]
    · exact data.symm

/-!
## The frames of an animation
-/

/-- How an animation plays a clip: it has a frame more than its length, with a pose for each joint, which is the one
that the entries of the frame give to it. -/
structure Clip.Plays (joints : Nat) (k : Clip) (a : Action) : Prop where
  name : a.name = k.name
  length : (a.length : Int) = k.length.toInt
  frames : a.frames.length = a.length + 1
  poses : ∀ f ∈ a.frames, f.poses.length = joints
  entries : List.Forall₂ (fun es f => FrameShaped joints es ∧ ∀ i < joints, ∃ p, f.poses[i]? = some p ∧ Gives es i p)
    k.frames a.frames
  positions : a.positions = k.positions.values ∧ ∀ vs, a.positions = some vs → vs.length = a.length + 1
  orientations : a.orientations = k.orientations.values ∧ ∀ vs, a.orientations = some vs → vs.length = a.length + 1

theorem Clip.Shaped.plays {L : Limits} {joints : Nat} {k : Clip} (h : k.Shaped L joints) :
    k.Plays joints (k.action joints) where
  name := rfl
  length := Int.toNat_of_nonneg h.length
  frames := List.length_map _ |>.trans h.frames
  poses := by
    intro f hf
    obtain ⟨es, -, rfl⟩ := List.mem_map.1 hf
    rw [frameOf, List.length_map, List.length_range]
  entries := by
    refine List.forall₂_map_right_iff.2 (List.forall₂_same.2 fun es hes => ⟨⟨h.entries es hes, h.inside es hes⟩, ?_⟩)
    intro i inside
    refine ⟨poseAt es i, ?_, gives_poseAt es i⟩
    rw [frameOf, List.getElem?_map, List.getElem?_range inside]
    rfl
  positions := ⟨rfl, fun vs hvs => (h.positions.length vs hvs).trans h.frames⟩
  orientations := ⟨rfl, fun vs hvs => (h.orientations.length vs hvs).trans h.frames⟩

/-!
## The order of entries
-/

/-- A frame in another order, if it has an entry for each joint; otherwise the same frame. -/
def Regroups (joints : Nat) (es es' : List Entry) : Prop :=
  es' = es ∨ es'.Perm es ∧ (es.map (·.index.toNat)).Perm (List.range joints)

/-- The same clip with the entries of its frames in another order. -/
structure Clip.Reorders (joints : Nat) (k k' : Clip) : Prop where
  rest : k' = { k with frames := k'.frames }
  frames : List.Forall₂ (Regroups joints) k.frames k'.frames

/-- What is kept from element to element is kept from list to list. -/
theorem forall₂_keeps {α β : Type} {R : α → α → Prop} {P : α → Prop} {f : α → β} {as bs : List α}
    (keeps : ∀ a b, R a b → P a → P b ∧ f b = f a) (h : List.Forall₂ R as bs) (holds : ∀ a ∈ as, P a) :
    (∀ b ∈ bs, P b) ∧ bs.map f = as.map f := by
  induction h with
  | nil => exact ⟨holds, rfl⟩
  | cons first _ ih =>
    obtain ⟨here, holds⟩ := List.forall_mem_cons.1 holds
    obtain ⟨here, same⟩ := keeps _ _ first here
    obtain ⟨all, same'⟩ := ih holds
    exact ⟨List.forall_mem_cons.2 ⟨here, all⟩, by rw [List.map_cons, List.map_cons, same, same']⟩

theorem Regroups.frameOf_eq {joints : Nat} {es es' : List Entry} (h : Regroups joints es es')
    (shaped : FrameShaped joints es) : FrameShaped joints es' ∧ frameOf joints es' = frameOf joints es := by
  obtain rfl | ⟨perm, each⟩ := h
  · exact ⟨shaped, rfl⟩
  · have distinct : (es.map (·.index.toNat)).Nodup := each.nodup_iff.2 List.nodup_range
    refine ⟨⟨perm.length_eq.trans shaped.1, fun e he => shaped.2 e (perm.mem_iff.1 he)⟩, ?_⟩
    rw [frameOf, frameOf, funext (poseAt_perm perm.symm distinct)]

theorem Clip.Reorders.action_eq {L : Limits} {joints : Nat} {k k' : Clip} (h : k.Reorders joints k')
    (shaped : k.Shaped L joints) : k'.Shaped L joints ∧ k'.action joints = k.action joints := by
  obtain ⟨rest, frames⟩ := h
  have number := frames.length_eq
  have framed : ∀ es ∈ k.frames, FrameShaped joints es := fun es hes => ⟨shaped.entries es hes, shaped.inside es hes⟩
  obtain ⟨all, same⟩ := forall₂_keeps (P := FrameShaped joints) (fun _ _ => Regroups.frameOf_eq) frames framed
  generalize k'.frames = frames' at rest number all same
  subst rest
  refine ⟨⟨⟨shaped.name, shaped.length, number ▸ shaped.frames, fun es hes => (all es hes).1,
    number ▸ shaped.positions, number ▸ shaped.orientations⟩, fun es hes => (all es hes).2,
    number ▸ shaped.admitted, number ▸ shaped.poses_admitted⟩, ?_⟩
  rw [Clip.action, Clip.action, same]

/-- A skeleton is read off the same bytes whatever is behind them. -/
theorem readSkeleton_of_prefix {L : Limits} {data front other : Bytes} {s : Armature}
    (h : readSkeleton L data {} = (.ok s, ⟨front.length⟩)) (there : front <+: data) (here : front <+: other) :
    readSkeleton L other {} = (.ok s, ⟨front.length⟩) := by
  refine ((consumes_skeleton L).consumed (Nat.zero_le _) h).alike ?_
  rwa [← List.prefix_iff_eq_take.1 there]

theorem Stands.reorder {L : Limits} {data front : Bytes} {clips clips' : List Clip} {a : Armature}
    (h : Stands L data front clips a) (reorders : List.Forall₂ (Clip.Reorders a.joints.length) clips clips')
    (rest : Bytes) :
    Stands L (front ++ (littleEndian 2 clips'.length ++ clips'.flatMap Clip.wire) ++ rest) front clips' a := by
  obtain ⟨shaped, actions⟩ :=
    forall₂_keeps (P := Clip.Shaped L a.joints.length) (fun _ _ => Clip.Reorders.action_eq) reorders h.shaped
  refine ⟨?_, List.prefix_append _ _, reorders.length_eq ▸ h.few, shaped, actions.trans h.actions⟩
  refine readSkeleton_of_prefix h.skeleton ((List.prefix_append _ _).trans h.bytes) ?_
  rw [List.append_assoc]
  exact List.prefix_append _ _

/-!
## Entries for joints that there are not
-/

/-- Data in which an entry is for a joint that there is not: it stands in a clip of `length + 1` frames, behind the
skeleton, whole clips, and the entries of that clip before it. -/
structure Astray (L : Limits) (data front : Bytes) (s : Armature) (clips : List Clip) (name : String) (length : Int32)
    (es : List Entry) (index : UInt16) : Prop where
  skeleton : readSkeleton L data {} = (.ok s, ⟨front.length⟩)
  whole : ∀ k ∈ clips, k.Counted s.joints.length
  fits : FitsText name
  inside : es.length < (length.toInt.toNat + 1) * s.joints.length
  stray : s.joints.length ≤ index.toNat
  bytes : ∃ count ≤ 65535, clips.length < count ∧
    front ++ (littleEndian 2 count ++ (clips.flatMap Clip.wire ++ (textBytes name ++
      (littleEndian 4 length.toUInt32.toNat ++ (es.flatMap Entry.bytes ++ littleEndian 2 index.toNat))))) <+: data

/-- What comes to nothing behind whole clips comes to nothing. -/
theorem times_stray {L : Limits} {data opening : Bytes} {joints : Nat} {stop : Cursor}
    (fails : ∀ {c m : Cursor} {a : Action}, Passes data c opening stop → readAction L data joints c ≠ (.ok a, m)) :
    ∀ {clips : List Clip} {count : Nat} {c m : Cursor} {actions : List Action}, (∀ k ∈ clips, k.Counted joints) →
      clips.length < count → Passes data c (clips.flatMap Clip.wire ++ opening) stop →
        Cursor.times (readAction L data joints) count c ≠ (.ok actions, m)
  | [], count + 1, c, m, actions, _, _, passes => by
    rw [Cursor.times_succ]
    intro h
    obtain ⟨a, m₁, first, -⟩ := Reading.bind_eq_ok_iff.1 h
    exact fails passes first
  | k :: clips, count + 1, c, m, actions, whole, more, passes => by
    rw [Cursor.times_succ]
    intro h
    obtain ⟨counted, whole⟩ := List.forall_mem_cons.1 whole
    obtain ⟨a, m₁, first, h⟩ := Reading.bind_eq_ok_iff.1 h
    obtain ⟨as, m₂, others, -⟩ := Reading.bind_eq_ok_iff.1 h
    obtain ⟨k', ⟨shaped, -⟩, passed⟩ := (reads_action joints passes.start_le).1 first
    rw [List.flatMap_cons, List.append_assoc] at passes
    obtain ⟨_, front, back⟩ := passes.split
    obtain rfl := counted.stop_unique shaped.toCounted front passed
    exact times_stray fails whole (Nat.lt_of_succ_lt_succ more) back others

theorem Astray.read_eq_error {L : Limits} {content : Content} {front : Bytes} {s : Armature} {clips : List Clip}
    {name : String} {length : Int32} {es : List Entry} {index : UInt16}
    (h : Astray L content.data front s clips name length es index) : ∃ e, read L content = .error e := by
  cases decoded : read L content with
  | error e => exact ⟨e, rfl⟩
  | ok a =>
    obtain ⟨c, run⟩ := Asset.readContent_eq_ok_iff.1 decoded
    obtain ⟨count, few, more, after, data⟩ := h.bytes
    have passes : Passes content.data ⟨front.length⟩ _ _ := ⟨front, after, data.symm, rfl, rfl⟩
    obtain ⟨m, counted, passes⟩ := passes.split
    rw [readData_eq, Reading.bind_apply, h.skeleton] at run
    obtain ⟨actions, m', hactions, -⟩ := Reading.bind_eq_ok_iff.1 run
    obtain ⟨number, m'', hnumber, hactions⟩ := Reading.bind_eq_ok_iff.1 hactions
    obtain ⟨rfl, rfl⟩ := Reading.ok_unique ((Asset.short_eq_ok_iff few).2 counted) hnumber
    rw [UInt16.toNat_ofNat', Nat.mod_eq_of_lt (Nat.lt_succ_of_le few)] at hactions
    exact absurd hactions
      (times_stray (fun passes => readAction_stray h.fits h.inside h.stray passes) h.whole more passes)

/-- **The poses of a frame land at the joints that they name.**  Whatever is decoded stands in the file as a skeleton
and clips for it, and its animations play the clips: each has a length that is not negative, a frame more than that, in
each frame a pose for each joint, and a position and an orientation for each frame if it has any.  The pose of a joint
is that of the last entry for it, and that of a joint at rest if there is none.  So the entries of a frame that has one
for each joint may stand in any order.  A file with an entry for a joint that there is not is not decoded. -/
theorem poses_by_index (L : Limits) :
    (∀ content a, read L content = .ok a → ∃ front clips, Stands L content.data front clips a ∧
      List.Forall₂ (Clip.Plays a.joints.length) clips a.actions) ∧
    (∀ data front clips a, Stands L data front clips a →
      ∀ clips', List.Forall₂ (Clip.Reorders a.joints.length) clips clips' → ∀ path rest,
        read L ⟨path, front ++ (littleEndian 2 clips'.length ++ clips'.flatMap Clip.wire) ++ rest⟩ = .ok a) ∧
    ∀ content front s clips name length es index, Astray L content.data front s clips name length es index →
      ∃ e, read L content = .error e := by
  refine ⟨fun content a decoded => ?_, fun data front clips a stands clips' reorders path rest => ?_, ?_⟩
  · obtain ⟨front, clips, stands⟩ := read_eq_ok_iff.1 decoded
    refine ⟨front, clips, stands, ?_⟩
    rw [← stands.actions, List.forall₂_map_right_iff]
    exact List.forall₂_same.2 fun k hk => (stands.shaped k hk).plays
  · exact read_eq_ok_iff.2 ⟨front, clips', stands.reorder reorders rest⟩
  · intro content front s clips name length es index astray
    exact astray.read_eq_error

/-- Two joints, each a root. -/
def pair : Armature where
  rootCount := 2
  joints :=
    let joint : Joint := ⟨"j", none, 0, .replicate 16 ⟨0⟩, .replicate 16 ⟨0⟩⟩
    [joint, joint]

def pairBytes : Bytes :=
  let joint : Bytes := [1, 0, 0x6a] ++ List.replicate 128 0 ++ [0, 0]
  [0, 0, 2, 0, 2, 0] ++ joint ++ joint

/-- A clip of one frame, in which the second joint comes first. -/
def nod : Clip where
  name := "nod"
  length := 0
  frames := [[⟨1, { translation := .replicate 3 ⟨1⟩ }⟩, ⟨0, {}⟩]]
  positions := ⟨5, some [.replicate 3 ⟨2⟩]⟩
  orientations := ⟨0, none⟩

/-- The same clip, with the first joint first. -/
def nodInOrder : Clip := { nod with frames := [[⟨0, {}⟩, ⟨1, { translation := .replicate 3 ⟨1⟩ }⟩]] }

/-- A file of the two joints and clips for them. -/
def pairFile (clips : List Clip) (rest : Bytes) : Bytes :=
  pairBytes ++ (littleEndian 2 clips.length ++ clips.flatMap Clip.wire) ++ rest

theorem poses_by_index_nod :
    let a : Armature := { pair with actions := [nod.action 2] }
    read {} ⟨"ordered.arm", pairFile [nodInOrder] [9]⟩ = .ok a ∧
    (∃ front clips, Stands {} (pairFile [nodInOrder] [9]) front clips a ∧ List.Forall₂ (Clip.Plays 2) clips a.actions) ∧
    ∃ e, read {} ⟨"astray.arm", pairBytes ++ (littleEndian 2 2 ++ ([nod].flatMap Clip.wire ++ (textBytes "shrug" ++
      (littleEndian 4 0 ++ ([⟨0, {}⟩].flatMap Entry.bytes ++ littleEndian 2 2)))))⟩ = .error e := by
  intro a
  have counted : nod.Counted 2 :=
    { name := by decide
      length := by decide
      frames := rfl
      entries := by decide
      positions := ⟨by decide, by rintro _ ⟨⟩; rfl⟩
      orientations := ⟨by decide, by rintro _ ⟨⟩⟩ }
  have shaped : nod.Shaped {} 2 :=
    { counted with inside := by decide, admitted := by decide, poses_admitted := by decide }
  have stands : Stands {} (pairFile [nod] []) pairBytes [nod] a :=
    { skeleton := by
        show (_ : Except Error Armature × Cursor) = _
        decide +kernel
      bytes := List.prefix_append _ _
      few := by decide
      shaped := List.forall_mem_singleton.2 shaped
      actions := rfl }
  have reorders : nod.Reorders 2 nodInOrder := ⟨rfl, .cons (.inr ⟨.swap _ _ _, .swap 0 1 []⟩) .nil⟩
  obtain ⟨plays, orders, refuses⟩ := poses_by_index {}
  have decoded := orders _ _ _ _ stands [nodInOrder] (.cons reorders .nil) "ordered.arm" [9]
  refine ⟨decoded, plays _ _ decoded, refuses _ pairBytes pair [nod] "shrug" 0 [⟨0, {}⟩] 2 ?_⟩
  exact {
    skeleton := by
      show (_ : Except Error Armature × Cursor) = _
      decide +kernel
    whole := List.forall_mem_singleton.2 counted
    fits := by decide
    inside := by decide
    stray := by decide
    bytes := ⟨2, by decide, by decide, List.prefix_refl _⟩ }

end Armature
end AssetRecords
