import AssetRecords.Asset.Grammar
/-!
# Armatures

```text
Armature   := name:string16 njoints:u16 nroots:u16 JointChain[nroots] nactions:u16 Action[nactions]
JointChain := name:string16 matrix:mat4 inv_matrix:mat4 nchildren:u16 JointChain[nchildren]
Action     := name:string16 length:i32 Frame[length+1]
              has_positions:u8 vec3[length+1]? has_orientations:u8 quat[length+1]?
Frame      := (index:u16 translation:vec3 rotation:quat scale:vec3)[njoints]
```

The joints of a chain stand in preorder, each with the number of its children.  Reading keeps the joints whose children
are still to come on a stack, so that the depth of a hierarchy is bounded by the limits.
-/
namespace AssetRecords

structure Joint where
  name : String
  /-- The index of the joint above; a root has none. -/
  parent : Option Nat
  childCount : UInt16
  matrix : Matrix4
  invMatrix : Matrix4
  deriving DecidableEq

/-- The transform of a joint in a frame, relative to the joint above. -/
structure JointPose where
  translation : Vec3 := .zero
  rotation : Quaternion := .identity
  scale : Vec3 := .zero
  deriving DecidableEq

/-- The poses of all joints, in the order of the joints. -/
structure Frame where
  poses : List JointPose
  deriving DecidableEq

/-- An animation: `length + 1` frames, and the motion of the whole in each of them if it moves. -/
structure Action where
  name : String
  length : Nat
  frames : List Frame
  positions : Option (List Vec3)
  orientations : Option (List Quaternion)
  deriving DecidableEq

/-- A skeleton, its joints in preorder, with its animations. -/
structure Armature where
  name : String := ""
  rootCount : UInt16 := 0
  joints : List Joint := []
  actions : List Action := []
  deriving DecidableEq

namespace Armature

/-- The indices of the joints right below a joint. -/
def children (a : Armature) (index : Nat) : List Nat :=
  (a.joints.zipIdx.filter (·.1.parent == some index)).map (·.2)

def action? (a : Armature) (name : String) : Option Action := a.actions.find? (·.name == name)

/-- A joint of a chain, under the joint that is its parent. -/
def readJoint (data : Bytes) (parent : Option Nat) : Reading Joint := do
  let name ← Cursor.string16 data
  let matrix ← Asset.matrix4 data
  let invMatrix ← Asset.matrix4 data
  let childCount ← Cursor.u16 data
  return { name, parent, childCount, matrix, invMatrix }

/-- The stack once a joint is read: joints without children left are done, and the innermost other one has a child
less to wait for. -/
def settle : List (Nat × Nat) → List (Nat × Nat)
  | [] => []
  | (_, 0) :: rest => settle rest
  | (index, left + 1) :: rest => (index, left) :: rest

/-- The joints of chains.  `left` joints are still to come, `roots` chains are not begun, and `stack` holds the joints
whose chains are under way, each with the number of its children that are not begun; its first entry is the parent of
the next joint.  The joints that are read already are given with the last one first. -/
def readChains (L : Limits) (data : Bytes) (declared : Nat) :
    (left roots : Nat) → (stack : List (Nat × Nat)) → (joints : List Joint) → Reading (List Joint)
  | left, 0, [], joints =>
    if left = 0 then return joints.reverse else throw (.jointCount declared (declared - left))
  | 0, _, _, _ => throw (.jointCount declared (declared + 1))
  | left + 1, roots, stack, joints => do
    let joint ← readJoint data (stack.head?.map (·.1))
    let roots := if stack.isEmpty then roots - 1 else roots
    if joint.childCount = 0 then readChains L data declared left roots (settle stack) (joint :: joints)
    else
      let stack := (joints.length, joint.childCount.toNat) :: stack
      L.checkDepth stack.length
      readChains L data declared left roots (settle stack) (joint :: joints)

def poseSize : Nat := 2 + 12 + 16 + 12

def readPose (data : Bytes) : Reading JointPose := do
  let translation ← Asset.vec3 data
  let rotation ← Asset.quaternion data
  let scale ← Asset.vec3 data
  return { translation, rotation, scale }

/-- Entries of a frame, each put in the place of the joint that it names. -/
def readEntries (data : Bytes) (joints : Nat) : (count : Nat) → Array JointPose → Reading (Array JointPose)
  | 0, poses => return poses
  | count + 1, poses => do
    let index := (← Cursor.u16 data).toNat
    if joints ≤ index then throw (.malformed (.jointIndex index joints))
    let pose ← readPose data
    readEntries data joints count (poses.setIfInBounds index pose)

def readFrame (data : Bytes) (joints : Nat) : Reading Frame := do
  let poses ← readEntries data joints joints (.replicate joints {})
  return ⟨poses.toList⟩

/-- Values for each frame, if a byte other than zero says that they are there. -/
def readTrack {α : Type} (L : Limits) (data : Bytes) (frames size : Nat) (read : Reading α) :
    Reading (Option (List α)) := do
  if (← Cursor.u8 data) = 0 then return none
  Asset.ensureRecords L data frames size
  some <$> Cursor.times read frames

def readAction (L : Limits) (data : Bytes) (joints : Nat) : Reading Action := do
  let name ← Cursor.string16 data
  let length := (← Cursor.i32 data).toInt
  if length < 0 then throw (.malformed (.negativeLength name length))
  let length := length.toNat
  let count := length + 1
  Asset.ensureRecords L data count (joints * poseSize)
  L.checkCount (count * joints)
  let frames ← Cursor.times (readFrame data joints) count
  let positions ← readTrack L data count 12 (Asset.vec3 data)
  let orientations ← readTrack L data count 16 (Asset.quaternion data)
  return { name, length, frames, positions, orientations }

def readData (L : Limits) (data : Bytes) : Reading Armature := do
  let name ← Cursor.string16 data
  let declared := (← Cursor.u16 data).toNat
  let rootCount ← Cursor.u16 data
  let joints ← readChains L data declared declared rootCount.toNat [] []
  let actionCount := (← Cursor.u16 data).toNat
  let actions ← Cursor.times (readAction L data declared) actionCount
  return { name, rootCount, joints, actions }

def read (L : Limits) (content : Content) : Except Error Armature := Asset.readContent (readData L) content

end Armature

def Joint.toValue (j : Joint) : Value :=
  .record "Joint" [
    ("name", .ofText j.name),
    ("parent_index", .ofInt .int32 (j.parent.elim (-1) Int.ofNat)),
    ("child_count", .ofInt .uint16 j.childCount.toNat),
    ("matrix", .ofSingles j.matrix),
    ("inv_matrix", .ofSingles j.invMatrix)]

def JointPose.toValue (p : JointPose) : Value :=
  .record "JointPose" [
    ("translation", .ofSingles p.translation),
    ("rotation", .ofSingles p.rotation),
    ("scale", .ofSingles p.scale)]

def Frame.toValue (f : Frame) : Value :=
  .record "Frame" [("poses", .sequence (.record "JointPose") (f.poses.map JointPose.toValue))]

def Value.ofTrack {count : Nat} (element : Shape) : Option (List (Vector Single count)) → Value
  | none => .absent (.sequence element)
  | some track => .present (.sequence element) (.sequence element (track.map .ofSingles))

def Action.toValue (a : Action) : Value :=
  .record "Action" [
    ("name", .ofText a.name),
    ("length", .ofInt .int32 a.length),
    ("frames", .sequence (.record "Frame") (a.frames.map Frame.toValue)),
    ("positions", .ofTrack .vec3 a.positions),
    ("orientations", .ofTrack .quaternion a.orientations)]

def Armature.toValue (a : Armature) : Value :=
  .record "Armature" [
    ("name", .ofText a.name),
    ("root_count", .ofInt .uint16 a.rootCount.toNat),
    ("joints", .sequence (.record "Joint") (a.joints.map Joint.toValue)),
    ("actions", .sequence (.record "Action") (a.actions.map Action.toValue))]

end AssetRecords
