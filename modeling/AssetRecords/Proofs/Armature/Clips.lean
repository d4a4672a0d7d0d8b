import AssetRecords.Proofs.Asset.Wire
import Mathlib.Data.List.Induction
/-!
# Clips — animations as a file has them

A frame of a file is a list of entries, each of which names its joint; the frame that is read has a pose for each
joint, and that is the one of the last entry for it (`reads_frame`).  A clip is an animation with all the entries of its
frames.  It is read exactly where its bytes stand, if each frame has as many entries as there are joints and no entry
names a joint that there is not (`reads_action`, `readAction_stray`).
-/
namespace AssetRecords

open Asset (FitsText textBytes singlesBytes text_eq_ok_iff int_eq_ok_iff singles_eq_ok_iff length_singlesBytes flagged
  flagged_eq_ok_iff ensureRecords_eq_ok_iff times_eq_ok_iff
  times_eq_ok_iff_of_bytes length_flatMap_of_forall)
open Cursor (Passes)

def JointPose.bytes (p : JointPose) : Bytes :=
  singlesBytes p.translation ++ (singlesBytes p.rotation ++ singlesBytes p.scale)

namespace Armature

/-- An entry of a frame: a pose, and the index of the joint that it is for. -/
structure Entry where
  index : UInt16
  pose : JointPose

namespace Entry

def bytes (e : Entry) : Bytes := littleEndian 2 e.index.toNat ++ e.pose.bytes

theorem length_bytes (e : Entry) : e.bytes.length = poseSize := by
  simp only [bytes, JointPose.bytes, List.length_append, length_littleEndian, length_singlesBytes]
  rfl

theorem length_flatMap_bytes (es : List Entry) : (es.flatMap bytes).length = es.length * poseSize :=
  length_flatMap_of_forall fun e _ => e.length_bytes

end Entry

/-!
## Frames
-/

/-- The pose of the last entry for a joint. -/
def lastFor (es : List Entry) (i : Nat) : Option JointPose := (es.filter (·.index.toNat = i)).getLast?.map (·.pose)

/-- The pose that entries give to a joint, which is at rest if there is none for it. -/
def poseAt (es : List Entry) (i : Nat) : JointPose := (lastFor es i).getD {}

theorem lastFor_concat (es : List Entry) (e : Entry) (i : Nat) :
    lastFor (es ++ [e]) i = if e.index.toNat = i then some e.pose else lastFor es i := by
  rw [lastFor, List.filter_append]
  by_cases same : e.index.toNat = i
  · have last : [e].filter (·.index.toNat = i) = [e] :=
      List.filter_eq_self.2 (List.forall_mem_singleton.2 (decide_eq_true same))
    rw [if_pos same, last, List.getLast?_concat]
    rfl
  · rw [if_neg same, List.filter_cons_of_neg (by simpa using same), List.filter_nil, List.append_nil]
    rfl

/-- What `poseAt` says: the pose is that of an entry for the joint with none for it behind, or there is none for it. -/
inductive Gives (es : List Entry) (i : Nat) : JointPose → Prop where
  | last (before : List Entry) (e : Entry) (after : List Entry) : es = before ++ e :: after → e.index.toNat = i →
      (∀ other ∈ after, other.index.toNat ≠ i) → Gives es i e.pose
  | none : (∀ e ∈ es, e.index.toNat ≠ i) → Gives es i {}

theorem gives_poseAt (es : List Entry) (i : Nat) : Gives es i (poseAt es i) := by
  induction es using List.reverseRecOn with
  | nil => exact .none (List.forall_mem_nil _)
  | append_singleton es e ih =>
    rw [poseAt, lastFor_concat]
    by_cases same : e.index.toNat = i
    · rw [if_pos same]
      exact .last es e [] rfl same (List.forall_mem_nil _)
    · rw [if_neg same, ← poseAt]
      generalize poseAt es i = pose at ih
      cases ih with
      | last before e' after split here behind =>
        refine .last before e' (after ++ [e]) ?_ here (List.forall_mem_append.2 ⟨behind, ?_⟩)
        · rw [split, List.append_assoc, List.cons_append]
        · exact List.forall_mem_singleton.2 same
      | none absent => exact .none (List.forall_mem_append.2 ⟨absent, List.forall_mem_singleton.2 same⟩)

/-- The order of entries for different joints does not matter. -/
theorem poseAt_perm {es es' : List Entry} (same : es.Perm es') (distinct : (es.map (·.index.toNat)).Nodup) (i : Nat) :
    poseAt es' i = poseAt es i := by
  have perm := same.filter (·.index.toNat = i)
  have few : (es.filter (·.index.toNat = i)).length ≤ 1 := by
    have once := List.nodup_iff_count_le_one.1 distinct i
    rwa [List.count, List.countP_map, List.countP_eq_length_filter] at once
  rw [poseAt, poseAt, lastFor, lastFor]
  generalize es.filter (·.index.toNat = i) = selected at perm few
  match selected with
  | [] => rw [List.nil_perm.1 perm]
  | [e] => rw [List.singleton_perm.1 perm]

/-- The frame that entries make up. -/
def frameOf (joints : Nat) (es : List Entry) : Frame := ⟨(List.range joints).map (poseAt es)⟩

/-- An entry put in its place. -/
def put (poses : Array JointPose) (e : Entry) : Array JointPose := poses.setIfInBounds e.index.toNat e.pose

theorem size_foldl_put (es : List Entry) (poses : Array JointPose) : (es.foldl put poses).size = poses.size := by
  induction es generalizing poses with
  | nil => rfl
  | cons e es ih => rw [List.foldl_cons, ih, put, Array.size_setIfInBounds]

/-- In each place is what the last entry for it has put there. -/
theorem getElem?_foldl_put (es : List Entry) (poses : Array JointPose) (i : Nat) :
    (es.foldl put poses)[i]? = poses[i]?.map (lastFor es i).getD := by
  induction es using List.reverseRecOn with
  | nil => exact Option.map_id'.symm
  | append_singleton es e ih =>
    rw [List.foldl_concat, lastFor_concat, put, Array.getElem?_setIfInBounds]
    by_cases same : e.index.toNat = i
    · rw [if_pos same, if_pos same, size_foldl_put, same]
      by_cases inside : i < poses.size
      · rw [if_pos inside, Array.getElem?_eq_getElem inside]
        rfl
      · rw [if_neg inside, Array.getElem?_eq_none (Nat.le_of_not_lt inside)]
        rfl
    · rw [if_neg same, if_neg same, ih]

theorem toList_foldl_put (joints : Nat) (es : List Entry) :
    (es.foldl put (.replicate joints {})).toList = (frameOf joints es).poses := by
  refine List.ext_getElem? fun i => ?_
  rw [Array.getElem?_toList, getElem?_foldl_put, frameOf, List.getElem?_map, Array.getElem?_replicate]
  by_cases inside : i < joints
  · rw [if_pos inside, List.getElem?_range inside]
    rfl
  · rw [if_neg inside, List.getElem?_eq_none (by simpa using inside)]
    rfl

section Reading

variable {L : Limits} {data : Bytes} {c c' : Cursor}

theorem readPose_eq_ok_iff {p : JointPose} : readPose data c = (.ok p, c') ↔ Passes data c p.bytes c' := by
  rw [readPose]
  constructor
  · intro h
    obtain ⟨translation, c₁, htranslation, h⟩ := Reading.bind_eq_ok_iff.1 h
    obtain ⟨rotation, c₂, hrotation, h⟩ := Reading.bind_eq_ok_iff.1 h
    obtain ⟨scale, c₃, hscale, h⟩ := Reading.bind_eq_ok_iff.1 h
    obtain ⟨rfl, rfl⟩ := Reading.pure_eq_ok_iff.1 h
    exact (singles_eq_ok_iff.1 htranslation).append
      ((singles_eq_ok_iff.1 hrotation).append (singles_eq_ok_iff.1 hscale))
  · intro passes
    obtain ⟨c₁, translation, passes⟩ := passes.split
    obtain ⟨c₂, rotation, scale⟩ := passes.split
    refine Reading.bind_eq_ok_iff.2 ⟨p.translation, c₁, singles_eq_ok_iff.2 translation, ?_⟩
    refine Reading.bind_eq_ok_iff.2 ⟨p.rotation, c₂, singles_eq_ok_iff.2 rotation, ?_⟩
    exact Reading.bind_eq_ok_iff.2 ⟨p.scale, c', singles_eq_ok_iff.2 scale, rfl⟩

def readEntry (data : Bytes) (joints : Nat) : Reading Entry := do
  let index ← Cursor.u16 data
  if joints ≤ index.toNat then throw (.malformed (.jointIndex index.toNat joints))
  let pose ← readPose data
  return ⟨index, pose⟩

theorem readEntries_succ (data : Bytes) (joints count : Nat) (poses : Array JointPose) :
    readEntries data joints (count + 1) poses =
      readEntry data joints >>= fun e => readEntries data joints count (put poses e) := by
  simp only [readEntries, readEntry, bind_assoc]
  congr 1
  funext index
  by_cases outside : joints ≤ index.toNat
  · simp only [if_pos outside]
    rfl
  · simp only [if_neg outside, bind_assoc, pure_bind]
    rfl

/-- To read entries is to read them all and then to put each of them in its place. -/
theorem readEntries_eq (data : Bytes) (joints : Nat) : ∀ (count : Nat) (poses : Array JointPose),
    readEntries data joints count poses = (·.foldl put poses) <$> Cursor.times (readEntry data joints) count
  | 0, poses => by
    rw [readEntries, Cursor.times_zero, map_pure]
    rfl
  | count + 1, poses => by
    simp only [readEntries_succ, readEntries_eq data joints count, Cursor.times_succ, map_eq_pure_bind, bind_assoc,
      pure_bind, List.foldl_cons]

theorem readEntry_eq_ok_iff {joints : Nat} {e : Entry} :
    readEntry data joints c = (.ok e, c') ↔ e.index.toNat < joints ∧ Passes data c e.bytes c' := by
  rw [readEntry, Reading.bind_eq_ok_iff]
  constructor
  · rintro ⟨index, c₁, hindex, h⟩
    obtain ⟨inside, h⟩ := Reading.unless_eq_ok_iff.1 h
    obtain ⟨pose, c₂, hpose, h⟩ := Reading.bind_eq_ok_iff.1 h
    obtain ⟨rfl, rfl⟩ := Reading.pure_eq_ok_iff.1 h
    exact ⟨Nat.lt_of_not_le inside, (Cursor.u16_eq_ok_iff.1 hindex).append (readPose_eq_ok_iff.1 hpose)⟩
  · rintro ⟨inside, passes⟩
    obtain ⟨c₁, index, pose⟩ := passes.split
    refine ⟨e.index, c₁, Cursor.u16_eq_ok_iff.2 index, Reading.unless_eq_ok_iff.2 ⟨Nat.not_le_of_lt inside, ?_⟩⟩
    exact Reading.bind_eq_ok_iff.2 ⟨e.pose, c', readPose_eq_ok_iff.2 pose, rfl⟩

/-- A frame has an entry for as many joints as there are, and each names one of them. -/
def FrameShaped (joints : Nat) (es : List Entry) : Prop := es.length = joints ∧ ∀ e ∈ es, e.index.toNat < joints

/-- **Each pose of a frame is that of the last entry for its joint.** -/
theorem reads_frame (joints : Nat) : Asset.Reads data (readFrame data joints) (·.flatMap Entry.bytes)
    fun es f => FrameShaped joints es ∧ frameOf joints es = f := by
  intro c c' f hc
  rw [readFrame, readEntries_eq, Reading.bind_eq_ok_iff]
  constructor
  · rintro ⟨poses, c₁, h, h'⟩
    obtain ⟨rfl, rfl⟩ := Reading.pure_eq_ok_iff.1 h'
    obtain ⟨es, hes, rfl⟩ := Reading.map_eq_ok_iff.1 h
    obtain ⟨length, inside, passes⟩ := (times_eq_ok_iff readEntry_eq_ok_iff hc).1 hes
    exact ⟨es, ⟨⟨length, inside⟩, by rw [toList_foldl_put]⟩, passes⟩
  · rintro ⟨es, ⟨⟨length, inside⟩, rfl⟩, passes⟩
    have hes := (times_eq_ok_iff readEntry_eq_ok_iff hc).2 ⟨length, inside, passes⟩
    refine ⟨_, c', Reading.map_eq_ok_iff.2 ⟨es, hes, rfl⟩, ?_⟩
    rw [toList_foldl_put]
    rfl

end Reading

/-!
## Clips
-/

/-- Values for each frame, behind a byte that says whether there are any. -/
structure Track (width : Nat) where
  flag : UInt8
  values : Option (List (Vector Single width))

def Track.bytes {width : Nat} (t : Track width) : Bytes := [t.flag] ++ t.values.elim [] (·.flatMap singlesBytes)

/-- A track has a value for each frame, or none at all behind a zero. -/
structure Track.Counted {width : Nat} (frames : Nat) (t : Track width) : Prop where
  absent : t.flag = 0 ↔ t.values = none
  length : ∀ values, t.values = some values → values.length = frames

/-- An animation as a file has it. -/
structure Clip where
  name : String
  length : Int32
  frames : List (List Entry)
  positions : Track 3
  orientations : Track 4

namespace Clip

def wire (k : Clip) : Bytes :=
  textBytes k.name ++ (littleEndian 4 k.length.toUInt32.toNat ++ (k.frames.flatMap (·.flatMap Entry.bytes) ++
    (k.positions.bytes ++ k.orientations.bytes)))

/-- A clip of the grammar: it has a frame more than its length says, each of as many entries as there are joints. -/
structure Counted (joints : Nat) (k : Clip) : Prop where
  name : FitsText k.name
  length : 0 ≤ k.length.toInt
  frames : k.frames.length = k.length.toInt.toNat + 1
  entries : ∀ es ∈ k.frames, es.length = joints
  positions : k.positions.Counted k.frames.length
  orientations : k.orientations.Counted k.frames.length

theorem Counted.length_frames {joints : Nat} {k : Clip} (h : k.Counted joints) :
    (k.frames.flatMap (·.flatMap Entry.bytes)).length = k.frames.length * (joints * poseSize) :=
  length_flatMap_of_forall fun es hes => by rw [Entry.length_flatMap_bytes, h.entries es hes]

/-- A clip that can be played: its entries are for joints that there are, and the limits admit its poses. -/
structure Shaped (L : Limits) (joints : Nat) (k : Clip) : Prop extends k.Counted joints where
  inside : ∀ es ∈ k.frames, ∀ e ∈ es, e.index.toNat < joints
  admitted : k.frames.length ≤ L.maxElements
  poses_admitted : k.frames.length * joints ≤ L.maxElements

/-- The animation of a clip. -/
def action (joints : Nat) (k : Clip) : Action where
  name := k.name
  length := k.length.toInt.toNat
  frames := k.frames.map (frameOf joints)
  positions := k.positions.values
  orientations := k.orientations.values

end Clip

section Reading

variable {L : Limits} {data : Bytes} {c c' : Cursor}

theorem readTrack_eq {α : Type} {frames size : Nat} {read : Reading α} : readTrack L data frames size read =
    flagged data (Asset.ensureRecords L data frames size >>= fun _ => Cursor.times read frames) := by
  simp only [readTrack, flagged, map_bind]

theorem readValues_eq_ok_iff {width frames : Nat} (admitted : frames ≤ L.maxElements)
    {values : List (Vector Single width)} (hc : c.pos ≤ data.length) :
    (Asset.ensureRecords L data frames (width * 4) >>= fun _ => Cursor.times (Cursor.singles data width) frames) c =
      (.ok values, c') ↔ values.length = frames ∧ Passes data c (values.flatMap singlesBytes) c' := by
  rw [Reading.bind_eq_ok_iff]
  constructor
  · rintro ⟨⟨⟩, m, looked, h⟩
    obtain ⟨-, -, rfl⟩ := ensureRecords_eq_ok_iff.1 looked
    exact (times_eq_ok_iff_of_bytes singles_eq_ok_iff hc).1 h
  · rintro ⟨length, passes⟩
    have enough : frames * (width * 4) ≤ c.remaining data := by
      rw [← length, ← length_flatMap_of_forall fun v _ => length_singlesBytes v]
      exact passes.length_le_remaining
    exact ⟨(), c, ensureRecords_eq_ok_iff.2 ⟨admitted, enough, rfl⟩,
      (times_eq_ok_iff_of_bytes singles_eq_ok_iff hc).2 ⟨length, passes⟩⟩

theorem reads_track {width frames : Nat} (admitted : frames ≤ L.maxElements) :
    Asset.Reads data (readTrack L data frames (width * 4) (Cursor.singles data width)) Track.bytes
      fun t values => t.Counted frames ∧ t.values = values := by
  intro c c' values _
  rw [readTrack_eq, flagged_eq_ok_iff fun hc => readValues_eq_ok_iff admitted hc]
  constructor
  · rintro ⟨length, flag, absent, passes⟩
    exact ⟨⟨flag, values⟩, ⟨⟨absent, length⟩, rfl⟩, passes⟩
  · rintro ⟨t, ⟨⟨absent, length⟩, rfl⟩, passes⟩
    exact ⟨length, t.flag, absent, passes⟩

/-- **A clip is read exactly where its bytes stand**, if it can be played. -/
theorem reads_action (joints : Nat) : Asset.Reads data (readAction L data joints) Clip.wire
    fun k a => k.Shaped L joints ∧ k.action joints = a := by
  intro c c' a _
  rw [readAction]
  constructor
  · intro h
    obtain ⟨name, c₁, hname, h⟩ := Reading.bind_eq_ok_iff.1 h
    obtain ⟨length, c₂, hlength, h⟩ := Reading.bind_eq_ok_iff.1 h
    obtain ⟨positive, h⟩ := Reading.unless_eq_ok_iff.1 h
    obtain ⟨⟨⟩, c₃, looked, h⟩ := Reading.bind_eq_ok_iff.1 h
    obtain ⟨⟨⟩, c₄, hposes, h⟩ := Reading.bind_eq_ok_iff.1 h
    obtain ⟨frames, c₅, hframes, h⟩ := Reading.bind_eq_ok_iff.1 h
    obtain ⟨positions, c₆, hpositions, h⟩ := Reading.bind_eq_ok_iff.1 h
    obtain ⟨orientations, c₇, horientations, h⟩ := Reading.bind_eq_ok_iff.1 h
    obtain ⟨rfl, rfl⟩ := Reading.pure_eq_ok_iff.1 h
    obtain ⟨fits, passed₁⟩ := text_eq_ok_iff.1 hname
    have passed₂ := int_eq_ok_iff.1 hlength
    obtain ⟨admitted, -, rfl⟩ := ensureRecords_eq_ok_iff.1 looked
    obtain ⟨few, rfl⟩ := Reading.liftM_eq_ok_iff.1 hposes
    obtain ⟨sources, ⟨number, each⟩, passed₃⟩ := (Asset.Reads.times (reads_frame joints) _ passed₂.stop_le).1 hframes
    obtain ⟨positions, ⟨moves, rfl⟩, passed₄⟩ := (reads_track admitted passed₃.stop_le).1 hpositions
    obtain ⟨orientations, ⟨turns, rfl⟩, passed₅⟩ := (reads_track admitted passed₄.stop_le).1 horientations
    obtain ⟨shaped, rfl⟩ := Asset.forall₂_and_map_iff.1 each
    rw [← number] at admitted few moves turns
    refine ⟨⟨name, length, sources, positions, orientations⟩, ⟨⟨⟨fits, Int.not_lt.1 positive, number,
      fun es hes => (shaped es hes).1, moves, turns⟩, fun es hes => (shaped es hes).2, admitted,
      Limits.checkCount_eq_ok_iff.1 few⟩, rfl⟩, ?_⟩
    exact passed₁.append (passed₂.append (passed₃.append (passed₄.append passed₅)))
  · rintro ⟨k, ⟨shaped, rfl⟩, passes⟩
    obtain ⟨c₁, passed₁, passes⟩ := passes.split
    obtain ⟨c₂, passed₂, passes⟩ := passes.split
    obtain ⟨c₃, passed₃, passes⟩ := passes.split
    obtain ⟨c₄, passed₄, passed₅⟩ := passes.split
    have framed : ∀ es ∈ k.frames, FrameShaped joints es := fun es hes => ⟨shaped.entries es hes, shaped.inside es hes⟩
    have each := (Asset.forall₂_and_map_iff (f := frameOf joints)).2 ⟨framed, rfl⟩
    have looked : k.frames.length * (joints * poseSize) ≤ c₂.remaining data := by
      rw [← shaped.toCounted.length_frames]
      exact passed₃.length_le_remaining
    have frames := (Asset.Reads.times (reads_frame joints) _ passed₂.stop_le).2 ⟨k.frames, ⟨rfl, each⟩, passed₃⟩
    have positions := (reads_track shaped.admitted passed₃.stop_le).2
      ⟨k.positions, ⟨shaped.positions, rfl⟩, passed₄⟩
    have orientations := (reads_track shaped.admitted passed₄.stop_le).2
      ⟨k.orientations, ⟨shaped.orientations, rfl⟩, passed₅⟩
    refine Reading.bind_eq_ok_iff.2 ⟨k.name, c₁, text_eq_ok_iff.2 ⟨shaped.name, passed₁⟩, ?_⟩
    refine Reading.bind_eq_ok_iff.2 ⟨k.length, c₂, int_eq_ok_iff.2 passed₂, ?_⟩
    refine Reading.unless_eq_ok_iff.2 ⟨Int.not_lt.2 shaped.length, ?_⟩
    simp only [← shaped.frames]
    refine Reading.bind_eq_ok_iff.2 ⟨(), c₂, ensureRecords_eq_ok_iff.2 ⟨shaped.admitted, looked, rfl⟩, ?_⟩
    refine Reading.bind_eq_ok_iff.2 ⟨(), c₂, Reading.liftM_eq_ok_iff.2
      ⟨Limits.checkCount_eq_ok_iff.2 shaped.poses_admitted, rfl⟩, ?_⟩
    refine Reading.bind_eq_ok_iff.2 ⟨_, c₃, frames, ?_⟩
    refine Reading.bind_eq_ok_iff.2 ⟨_, c₄, positions, ?_⟩
    exact Reading.bind_eq_ok_iff.2 ⟨_, c', orientations, rfl⟩

/-!
A clip ends at one place only, however its entries are taken.
-/

theorem stop_unique_of_text {s s' : String} {m m' : Cursor} (fits : FitsText s) (fits' : FitsText s')
    (h : Passes data c (textBytes s) m) (h' : Passes data c (textBytes s') m') : m = m' :=
  (Reading.ok_unique (text_eq_ok_iff.2 ⟨fits, h⟩) (text_eq_ok_iff.2 ⟨fits', h'⟩)).2

theorem length_unique {n n' : Int32} {m m' : Cursor} (h : Passes data c (littleEndian 4 n.toUInt32.toNat) m)
    (h' : Passes data c (littleEndian 4 n'.toUInt32.toNat) m') : n = n' ∧ m = m' :=
  Reading.ok_unique (int_eq_ok_iff.2 h) (int_eq_ok_iff.2 h')

theorem Track.Counted.stop_unique {width frames : Nat} {t t' : Track width} {m m' : Cursor} (ht : t.Counted frames)
    (ht' : t'.Counted frames) (h : Passes data c t.bytes m) (h' : Passes data c t'.bytes m') : m = m' := by
  obtain ⟨m₁, flag, values⟩ := h.split
  obtain ⟨m₂, flag', values'⟩ := h'.split
  obtain ⟨same, rfl⟩ := Reading.ok_unique (Cursor.u8_eq_ok_iff.2 flag) (Cursor.u8_eq_ok_iff.2 flag')
  have absent : t.values = none ↔ t'.values = none := by rw [← ht.absent, ← ht'.absent, same]
  refine values.stop_unique values' ?_
  cases hvs : t.values with
  | none => rw [absent.1 hvs]
  | some vs =>
    cases hvs' : t'.values with
    | none => exact absurd (absent.2 hvs') (hvs ▸ nofun)
    | some vs' =>
      show (vs.flatMap singlesBytes).length = (vs'.flatMap singlesBytes).length
      rw [length_flatMap_of_forall fun v _ => Asset.length_singlesBytes v,
        length_flatMap_of_forall fun v _ => Asset.length_singlesBytes v, ht.length vs hvs, ht'.length vs' hvs']

theorem Clip.Counted.stop_unique {joints : Nat} {k k' : Clip} {m m' : Cursor} (hk : k.Counted joints)
    (hk' : k'.Counted joints) (h : Passes data c k.wire m) (h' : Passes data c k'.wire m') : m = m' := by
  obtain ⟨m₁, name, h⟩ := h.split
  obtain ⟨_, name', h'⟩ := h'.split
  obtain rfl := stop_unique_of_text hk.name hk'.name name name'
  obtain ⟨m₂, length, h⟩ := h.split
  obtain ⟨_, length', h'⟩ := h'.split
  obtain ⟨same, rfl⟩ := length_unique length length'
  have number : k.frames.length = k'.frames.length := by rw [hk.frames, hk'.frames, same]
  obtain ⟨m₃, frames, h⟩ := h.split
  obtain ⟨_, frames', h'⟩ := h'.split
  obtain rfl := frames.stop_unique frames' (by rw [hk.length_frames, hk'.length_frames, number])
  obtain ⟨m₄, positions, orientations⟩ := h.split
  obtain ⟨_, positions', orientations'⟩ := h'.split
  obtain rfl := hk.positions.stop_unique (number ▸ hk'.positions) positions positions'
  exact hk.orientations.stop_unique (number ▸ hk'.orientations) orientations orientations'

/-- **A clip with an entry for a joint that there is not is not read**, wherever the entry stands. -/
theorem readAction_stray {joints : Nat} {name : String} {length : Int32} {es : List Entry} {index : UInt16}
    {a : Action} (fits : FitsText name) (inside : es.length < (length.toInt.toNat + 1) * joints)
    (stray : joints ≤ index.toNat)
    (h : Passes data c (textBytes name ++ (littleEndian 4 length.toUInt32.toNat ++
      (es.flatMap Entry.bytes ++ littleEndian 2 index.toNat))) c') {m : Cursor} :
    readAction L data joints c ≠ (.ok a, m) := by
  intro decoded
  obtain ⟨k, ⟨shaped, -⟩, h'⟩ := (reads_action joints h.start_le).1 decoded
  obtain ⟨m₁, passed, tail⟩ := h.split
  obtain ⟨_, passed', tail'⟩ := h'.split
  obtain rfl := stop_unique_of_text fits shaped.name passed passed'
  obtain ⟨m₂, passed, entries⟩ := tail.split
  obtain ⟨_, passed', tail'⟩ := tail'.split
  obtain ⟨rfl, rfl⟩ := length_unique passed passed'
  obtain ⟨m₃, frames, -⟩ := tail'.split
  have number : k.frames.flatten.length = (k.length.toInt.toNat + 1) * joints := by
    have each : ∀ es ∈ k.frames, (id es).length = joints := shaped.entries
    rw [← List.flatMap_id, length_flatMap_of_forall each, shaped.frames]
  have bytes : k.frames.flatMap (·.flatMap Entry.bytes) = k.frames.flatten.flatMap Entry.bytes := by
    rw [← List.flatMap_id, List.flatMap_assoc]
    rfl
  rw [← number] at inside
  -- the entry that is read in the place of the stray one
  have place : k.frames.flatten =
      k.frames.flatten.take es.length ++ k.frames.flatten[es.length] :: k.frames.flatten.drop (es.length + 1) := by
    rw [← List.drop_eq_getElem_cons inside, List.take_append_drop]
  have named : k.frames.flatten[es.length].index.toNat < joints := by
    obtain ⟨frame, hframe, he⟩ := List.mem_flatten.1 (List.getElem_mem inside)
    exact shaped.inside frame hframe _ he
  have size : (k.frames.flatten.take es.length).length = es.length := List.length_take_of_le (Nat.le_of_lt inside)
  rw [bytes, place, List.flatMap_append, List.flatMap_cons, Entry.bytes] at frames
  obtain ⟨m₄, before, read⟩ := entries.split
  obtain ⟨_, before', behind⟩ := frames.split
  obtain rfl := before.stop_unique before' (by rw [Entry.length_flatMap_bytes, Entry.length_flatMap_bytes, size])
  obtain ⟨m₅, entry, -⟩ := behind.split
  obtain ⟨m₆, read', -⟩ := entry.split
  obtain ⟨same, -⟩ := Reading.ok_unique (Cursor.u16_eq_ok_iff.2 read) (Cursor.u16_eq_ok_iff.2 read')
  rw [← same] at named
  omega

end Reading

end Armature
end AssetRecords
