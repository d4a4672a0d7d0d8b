import AssetRecords.Bytes
import AssetRecords.Error
/-!
# Stored numbers

A stored number is its element type and that many bits.  It widens to a `Number` without loss, and a `Number` narrows to
it only where nothing is lost, rounding to a floating-point type apart.
-/
namespace AssetRecords

abbrev ScalarType.Bits (t : ScalarType) : Type := BitVec t.width

structure Scalar where
  type : ScalarType
  bits : type.Bits
  deriving DecidableEq

namespace ScalarType

/-- The bits of a number in a type.  An integer type takes the integers of its range and nothing else.  A 32-bit
floating-point type refuses a finite number that would become infinite. -/
def narrow? : (t : ScalarType) → Number → Option t.Bits
  | .float32, n =>
    let x := n.toFloating .single
    match n with
    | .float d => if d.isFinite && !x.isFinite then none else some x.bits
    | _ => some x.bits
  | .float64, .float d => some d.bits
  | .float64, n => some (n.toFloating .double).bits
  | t, n => n.toInt?.bind fun i => if t.inRange i then some (BitVec.ofInt t.width i) else none

/-- The bits of a number in a type; a number that the type does not hold is refused. -/
def narrow (t : ScalarType) (n : Number) : Except Error t.Bits :=
  match t.narrow? n with
  | some bits => .ok bits
  | none => .error (.numericRange n t)

def parse (t : ScalarType) (token : List Char) : Except Error t.Bits :=
  match Number.parse? token with
  | some n => t.narrow n
  | none => .error (.typeMismatch t.name (Text.inQuotes (String.ofList token)))

def bitsOf (t : ScalarType) (bytes : Bytes) : t.Bits := BitVec.ofNat t.width (ofLittleEndian bytes)

def bytesOf (t : ScalarType) (bits : t.Bits) : Bytes := littleEndian t.size bits.toNat

@[simp] theorem length_bytesOf (t : ScalarType) (bits : t.Bits) : (t.bytesOf bits).length = t.size :=
  length_littleEndian _ _

theorem pow_size (t : ScalarType) : Nat.pow 256 t.size = Nat.pow 2 t.width := (Nat.pow_mul 2 8 t.size).symm

theorem bitsOf_bytesOf (t : ScalarType) (bits : t.Bits) : t.bitsOf (t.bytesOf bits) = bits := by
  have held : ofLittleEndian (littleEndian t.size bits.toNat) = bits.toNat := by
    rw [ofLittleEndian_littleEndian, pow_size]
    exact Nat.mod_eq_of_lt bits.isLt
  rw [bitsOf, bytesOf, held, BitVec.ofNat_toNat, BitVec.setWidth_eq]

theorem bytesOf_bitsOf {t : ScalarType} {bytes : Bytes} (h : bytes.length = t.size) :
    t.bytesOf (t.bitsOf bytes) = bytes := by
  have small : ofLittleEndian bytes < Nat.pow 2 t.width := by
    rw [← pow_size, ← h]
    exact ofLittleEndian_lt bytes
  rw [bytesOf, bitsOf, BitVec.toNat_ofNat]
  exact (congrArg _ (Nat.mod_eq_of_lt small)).trans (h ▸ littleEndian_ofLittleEndian bytes)

end ScalarType

namespace Scalar

instance : Inhabited Scalar := ⟨⟨.uint8, 0⟩⟩

def ofSingle (x : Single) : Scalar := ⟨.float32, x.bits⟩

/-- The bits of a number, for a reader that expects it to be of a type. -/
def bitsIn? (s : Scalar) (t : ScalarType) : Option t.Bits := if h : s.type = t then some (h ▸ s.bits) else none

def toNumber : Scalar → Number
  | ⟨.int8, b⟩ | ⟨.int16, b⟩ | ⟨.int32, b⟩ | ⟨.int64, b⟩ => .int (Int64.ofInt b.toInt)
  | ⟨.uint8, b⟩ | ⟨.uint16, b⟩ | ⟨.uint32, b⟩ | ⟨.uint64, b⟩ => .uint (UInt64.ofNat b.toNat)
  | ⟨.float32, b⟩ => .float (Floating.convert .double (⟨b⟩ : Single))
  | ⟨.float64, b⟩ => .float ⟨b⟩

/-- The text of a stored number: all digits of an integer, the shortest decimal of a floating-point number in its own
format. -/
def chars : Scalar → List Char
  | ⟨.float32, b⟩ => (⟨b⟩ : Single).chars
  | s => s.toNumber.chars

def text (s : Scalar) : String := String.ofList s.chars

/-- Infinities and NaNs are not finite; integers are. -/
def isFinite : Scalar → Bool
  | ⟨.float32, b⟩ => (⟨b⟩ : Single).isFinite
  | ⟨.float64, b⟩ => (⟨b⟩ : Double).isFinite
  | _ => true

def toBytes (s : Scalar) : Bytes := s.type.bytesOf s.bits

end Scalar
end AssetRecords
