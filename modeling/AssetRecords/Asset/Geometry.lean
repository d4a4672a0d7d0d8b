import AssetRecords.Schema.Value
/-!
# Vectors, rotations and matrices

Fixed runs of 32-bit floating-point numbers.  A rotation starts as the identity, and so does a matrix.
-/
namespace AssetRecords

abbrev Vec3 := Vector Single 3

/-- A rotation, its real part last. -/
abbrev Quaternion := Vector Single 4

/-- A matrix of four columns of four numbers each. -/
abbrev Matrix4 := Vector Single 16

def Vec3.zero : Vec3 := .replicate 3 (.zero .single)

def Quaternion.identity : Quaternion :=
  .ofFn fun i => if i.val = 3 then .one .single else .zero .single

def Matrix4.identity : Matrix4 :=
  .ofFn fun i => if i.val % 5 = 0 then .one .single else .zero .single

namespace Shape

def zeros (count : Nat) : Shape := vector (List.replicate count (.zero .single))

def vec2 : Shape := zeros 2
def vec3 : Shape := zeros 3
def vec4 : Shape := zeros 4
def quaternion : Shape := vector Quaternion.identity.toList
def matrix4 : Shape := vector Matrix4.identity.toList

def bool : Shape := leaf .bool
def text : Shape := leaf .text
def number (type : ScalarType) : Shape := leaf (.number type)

end Shape

namespace Value

def ofSingles {count : Nat} (xs : Vector Single count) : Value :=
  tuple (xs.toList.map fun x => leaf (.number (.ofSingle x)))

def ofText (s : String) : Value := leaf (.text s)

def ofInt (type : ScalarType) (i : Int) : Value := leaf (.number ⟨type, BitVec.ofInt type.width i⟩)

end Value
end AssetRecords
