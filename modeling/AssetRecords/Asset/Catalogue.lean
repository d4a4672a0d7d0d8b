import AssetRecords.Asset.Armature
import AssetRecords.Asset.Image
import AssetRecords.Asset.Level
import AssetRecords.Asset.Placeholder
/-!
# The record types of assets

The schema in which every asset is a value, so that each of the general formats can write it.
-/
namespace AssetRecords
namespace Asset

def armatureSchema (S : Schema) : Schema :=
  S.declare "Joint" [
      ("name", .text), ("parent_index", .number .int32), ("child_count", .number .uint16), ("matrix", .matrix4),
      ("inv_matrix", .matrix4)]
    |>.declare "JointPose" [("translation", .vec3), ("rotation", .quaternion), ("scale", .vec3)]
    |>.declare "Frame" [("poses", .sequence (.record "JointPose"))]
    |>.declare "Action" [
      ("name", .text), ("length", .number .int32), ("frames", .sequence (.record "Frame")),
      ("positions", .optional (.sequence .vec3)), ("orientations", .optional (.sequence .quaternion))]
    |>.declare "Armature" [
      ("name", .text), ("root_count", .number .uint16), ("joints", .sequence (.record "Joint")),
      ("actions", .sequence (.record "Action"))]

/-- The fields of levels and placeholders and of their parts. -/
def meshSchema (S : Schema) : Schema :=
  S.declare "Mesh" [
      ("name", .text), ("matrix", .matrix4), ("vertices", .buffer), ("normals", .buffer),
      ("uvs", .optional .buffer), ("indices", .buffer)]
    |>.declare "Level" [("name", .text), ("meshes", .sequence (.record "Mesh"))]
    |>.declare "VertexWeight" [("group", .number .uint16), ("weight", .number .float32)]
    |>.declare "Placeholder" [
      ("name", .text), ("matrix", .matrix4), ("vertices", .buffer), ("normals", .buffer),
      ("weights", .sequence (.record "VertexWeight")), ("indices", .buffer)]

def imageSchema (S : Schema) : Schema :=
  S.declare "Image" [
    ("width", .number .uint32), ("height", .number .uint32), ("bit_depth", .number .uint8),
    ("channels", .number .uint8), ("color", .enum ImageColor.table 0), ("pixels", .buffer)]

def schema : Schema := imageSchema (meshSchema (armatureSchema {}))

end Asset

inductive Asset where
  | armature (value : Armature)
  | level (value : Level)
  | placeholder (value : Placeholder)
  | image (value : Image)

namespace Asset

inductive Kind where
  | armature | level | placeholder | image
  deriving DecidableEq, Repr

def Kind.ofExtension? : String → Option Kind
  | "arm" => some .armature
  | "lvl" => some .level
  | "plh" => some .placeholder
  | "png" => some .image
  | _ => none

/-- An asset of a kind that nothing was read into. -/
def Kind.initial : Kind → Asset
  | .armature => .armature {}
  | .level => .level {}
  | .placeholder => .placeholder {}
  | .image => .image {}

def read (L : Limits) (content : Content) : Kind → Except Error Asset
  | .armature => .armature <$> Armature.read L content
  | .level => .level <$> Level.read L content
  | .placeholder => .placeholder <$> Placeholder.read L content
  | .image => .image <$> Image.read content

def toValue : Asset → Value
  | .armature a => a.toValue
  | .level l => l.toValue
  | .placeholder p => p.toValue
  | .image i => i.toValue

end Asset
end AssetRecords
