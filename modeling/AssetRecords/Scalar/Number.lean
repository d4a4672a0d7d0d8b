import AssetRecords.Decimal.Shortest
import AssetRecords.Decimal.Literal
/-!
# Numbers without a storage type

Texts and trees deliver a number in one of three kinds.  Which integer it denotes, if it denotes one, is decided
exactly; so is every narrowing that builds on it.
-/
namespace AssetRecords

def Decimal.whole (i : Int) : List Char :=
  if i < 0 then '-' :: Nat.toDigits 10 i.natAbs else Nat.toDigits 10 i.natAbs

/-- A number as a text or a tree delivers it, not yet stored anywhere. -/
inductive Number where
  | int (value : Int64)
  | uint (value : UInt64)
  | float (value : Double)
  deriving DecidableEq

namespace Number

/-- The number a token spells.  What fits 64 bits is a natural number or, when it is negative, a whole one; all else is
floating point, and so is a zero with a minus sign, which keeps its sign that way. -/
def parse? (cs : List Char) : Option Number :=
  match Decimal.natural? cs with
  | some n => some (.uint n)
  | none =>
    match Decimal.integer? cs with
    | some i => some (if i = 0 then .float (.negZero .double) else .int i)
    | none => (Decimal.floating? .double cs).map .float

def chars : Number → List Char
  | int i => Decimal.whole i.toInt
  | uint n => Decimal.whole n.toNat
  | float x => x.chars

def text (n : Number) : String := String.ofList n.chars

/-- The whole number that a number denotes exactly, if it denotes one. -/
def toInt? : Number → Option Int
  | int i => some i.toInt
  | uint n => some n.toNat
  | float x => x.toInt?

def toFloating (F : FloatFormat) : Number → Floating F
  | int i => .ofInt F i.toInt
  | uint n => .ofInt F n.toNat
  | float x => x.convert F

end Number
end AssetRecords
