import AssetRecords.Json.Tree
import AssetRecords.Scalar.Basic
/-!
# The element type of an array of numbers

The narrowest type is chosen that holds all numbers of an array: an integer type when all of them are integers, signed
only when one is negative, and a floating-point type otherwise.
-/
namespace AssetRecords
namespace Json

/-- Up to here every integer is a 32-bit floating-point number. -/
def exactInSingle : Nat := 2 * FloatFormat.single.leadingBit

/-- A double prints back to the same number after a trip through 32 bits. -/
def survivesSingle (x : Double) : Bool :=
  match Decimal.floating? .double (x.convert .single).chars with
  | some back => back.sameNumber x
  | none => false

/-- The number is past what 32 bits hold, or is not itself there. -/
def needsDouble : Number → Bool
  | .int i => exactInSingle < i.toInt.natAbs
  | .uint n => exactInSingle < n.toNat
  | .float x => (Floating.ofInt .double exactInSingle).magnitude < x.magnitude || !survivesSingle x

structure Extent where
  smallest : Int := 0
  biggest : Nat := 0
  isFloat : Bool := false
  needsDouble : Bool := false
  deriving DecidableEq, Repr

def Extent.add (e : Extent) (n : Number) : Extent :=
  let e := { e with needsDouble := e.needsDouble || Json.needsDouble n }
  match n with
  | .int i => { e with smallest := min e.smallest i.toInt }
  | .uint u => { e with biggest := max e.biggest u.toNat }
  | .float _ => { e with isFloat := true }

/-- The first of some types that holds the least and the greatest integer of an array. -/
def Extent.firstOf (e : Extent) (types : List ScalarType) : Option ScalarType :=
  types.find? fun t => t.minInt ≤ e.smallest && (e.biggest : Int) ≤ t.maxInt

def Extent.type (e : Extent) : Except Error ScalarType :=
  if e.isFloat then .ok (if e.needsDouble then .float64 else .float32)
  else if e.smallest < 0 then
    match e.firstOf [.int8, .int16, .int32, .int64] with
    | some t => .ok t
    | none => .error (.numericRange (.uint (UInt64.ofNat e.biggest)) .int64)
  else .ok ((e.firstOf [.uint8, .uint16, .uint32]).getD .uint64)

def toNumber : Json → Except Error Number
  | number n => .ok n
  | j => .error (.typeMismatch "number" j.kind)

def elementType (elements : List Json) : Except Error ScalarType := do
  let numbers ← elements.mapM toNumber
  (numbers.foldl Extent.add {}).type

end Json
end AssetRecords
