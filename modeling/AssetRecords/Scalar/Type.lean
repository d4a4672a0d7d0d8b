import AssetRecords.FloatingPoint.Format
/-!
# The ten element types

Integers of 8 to 64 bits with and without sign, and floating-point numbers of 32 and 64 bits.  Each has a name, a tag
and a size in bytes.
-/
namespace AssetRecords

/-- The types of number that a leaf or an element of a buffer can have. -/
inductive ScalarType where
  | int8 | uint8 | int16 | uint16 | int32 | uint32 | int64 | uint64 | float32 | float64
  deriving DecidableEq, Repr

namespace ScalarType

instance : Inhabited ScalarType := ⟨uint8⟩

def all : List ScalarType := [int8, uint8, int16, uint16, int32, uint32, int64, uint64, float32, float64]

def size : ScalarType → Nat
  | int8 | uint8 => 1
  | int16 | uint16 => 2
  | int32 | uint32 | float32 => 4
  | int64 | uint64 | float64 => 8

def width (t : ScalarType) : Nat := 8 * t.size

def name : ScalarType → String
  | int8 => "int8_t"
  | uint8 => "uint8_t"
  | int16 => "int16_t"
  | uint16 => "uint16_t"
  | int32 => "int32_t"
  | uint32 => "uint32_t"
  | int64 => "int64_t"
  | uint64 => "uint64_t"
  | float32 => "float32_t"
  | float64 => "float64_t"

def tag : ScalarType → UInt8
  | int8 => 0
  | uint8 => 1
  | int16 => 2
  | uint16 => 3
  | int32 => 4
  | uint32 => 5
  | int64 => 6
  | uint64 => 7
  | float32 => 8
  | float64 => 9

def ofName? (name : String) : Option ScalarType := all.find? (·.name == name)

def ofTag? (tag : UInt8) : Option ScalarType := all.find? (·.tag == tag)

theorem ofName?_name (t : ScalarType) : ofName? t.name = some t := by cases t <;> decide +kernel

theorem ofTag?_eq_some {tag : UInt8} {t : ScalarType} : ofTag? tag = some t ↔ t.tag = tag := by
  constructor
  · intro h
    simpa using List.find?_some h
  · rintro rfl
    cases t <;> rfl

def isSigned : ScalarType → Bool
  | int8 | int16 | int32 | int64 => true
  | _ => false

/-- The least natural number that is too large for an integer type. -/
def bound (t : ScalarType) : Nat := Nat.pow 2 (if t.isSigned then t.width - 1 else t.width)

def minInt (t : ScalarType) : Int := if t.isSigned then -(t.bound : Int) else 0

def maxInt (t : ScalarType) : Int := t.bound - 1

def inRange (t : ScalarType) (i : Int) : Bool := t.minInt ≤ i && i ≤ t.maxInt

end ScalarType
end AssetRecords
