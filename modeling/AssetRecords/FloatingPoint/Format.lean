/-!
# Binary floating-point formats

A format is a number of fraction bits and a number of exponent bits under one sign bit.  Everything here is exact
arithmetic on the bit patterns: a finite pattern stands for `significand · 2 ^ exponent`, and the patterns without
their sign bit are in the order of the numbers they stand for.
-/
namespace AssetRecords

/-- A binary interchange format: how many bits hold the fraction and how many the exponent. -/
structure FloatFormat where
  fractionBits : Nat
  exponentBits : Nat
  deriving DecidableEq, Repr

namespace FloatFormat

def single : FloatFormat := ⟨23, 8⟩

def double : FloatFormat := ⟨52, 11⟩

def width (F : FloatFormat) : Nat := F.fractionBits + F.exponentBits + 1

def signBit (F : FloatFormat) : Nat := Nat.pow 2 (F.width - 1)

/-- The leading bit of a significand, which a pattern does not hold: the fraction is less than that. -/
def leadingBit (F : FloatFormat) : Nat := Nat.pow 2 F.fractionBits

/-- The first bit of the fraction; a NaN that comes out of a conversion has it set. -/
def quietBit (F : FloatFormat) : Nat := Nat.pow 2 (F.fractionBits - 1)

def bias (F : FloatFormat) : Nat := Nat.pow 2 (F.exponentBits - 1) - 1

/-- The exponent of the last place of the smallest numbers: every finite number is a multiple of two to this power. -/
def minExponent (F : FloatFormat) : Int := 1 - F.bias - F.fractionBits

/-- The pattern of positive infinity: all exponent bits set and no fraction bit. -/
def infinity (F : FloatFormat) : Nat := (Nat.pow 2 F.exponentBits - 1) * F.leadingBit

/-- The significand that a pattern without sign stands for; the leading bit is implied unless the exponent field is
zero. -/
def significand (F : FloatFormat) (magnitude : Nat) : Nat :=
  if magnitude < F.leadingBit then magnitude else F.leadingBit + magnitude % F.leadingBit

def exponent (F : FloatFormat) (magnitude : Nat) : Int :=
  F.minExponent + ((magnitude / F.leadingBit - 1 : Nat) : Int)

end FloatFormat

/-- The quotient of two whole numbers, scaled by a power of two, as a quotient of whole numbers. -/
def scaleByPowerOfTwo (num den : Nat) (power : Int) : Nat × Nat :=
  (num * Nat.pow 2 power.toNat, den * Nat.pow 2 (-power).toNat)

def scaleByPowerOfTen (num den : Nat) (power : Int) : Nat × Nat :=
  (num * Nat.pow 10 power.toNat, den * Nat.pow 10 (-power).toNat)

/-- The whole number nearest to a quotient; a half goes to the even neighbour. -/
def roundHalfEven (num den : Nat) : Nat :=
  let below := num / den
  let twice := 2 * (num % den)
  if twice < den then below
  else if den < twice then below + 1
  else below + below % 2

namespace FloatFormat

/-- The pattern without sign nearest to the quotient of two whole numbers; a half goes to the even pattern, and what
rounds past the largest finite number is infinity.  A significand that rounds up to the next power of two carries into
the exponent field by itself. -/
def nearest (F : FloatFormat) (num den : Nat) : Nat :=
  if num = 0 then 0
  else
    let guess : Int := (num.log2 : Int) - den.log2
    let atGuess := scaleByPowerOfTwo num den (-guess)
    let leading := if atGuess.2 ≤ atGuess.1 then guess else guess - 1
    let exponent := max F.minExponent (leading - F.fractionBits)
    let scaled := scaleByPowerOfTwo num den (-exponent)
    min F.infinity ((exponent - F.minExponent).toNat * F.leadingBit + roundHalfEven scaled.1 scaled.2)

/-- The pattern without sign nearest to the product of two finite ones. -/
def product (F : FloatFormat) (m n : Nat) : Nat :=
  let scaled := scaleByPowerOfTwo (F.significand m * F.significand n) 1 (F.exponent m + F.exponent n)
  F.nearest scaled.1 scaled.2

/-- The pattern without sign nearest to the quotient of two finite ones, of which the second is not zero. -/
def quotient (F : FloatFormat) (m n : Nat) : Nat :=
  let scaled := scaleByPowerOfTwo (F.significand m) (F.significand n) (F.exponent m - F.exponent n)
  F.nearest scaled.1 scaled.2

/-- No number of the format, infinity and zero apart, is as large as ten to this power or as small as ten to minus
this power. -/
def decimalReach (F : FloatFormat) : Nat := F.bias + F.fractionBits + 2

/-- The pattern without sign nearest to `digits · 10 ^ power`.  A decimal far outside the range of the format is told
apart by its number of digits, so that its power of ten is never computed. -/
def nearestDecimal (F : FloatFormat) (digits : Nat) (power : Int) : Nat :=
  let reach : Int := F.decimalReach
  let places : Int := (Nat.toDigits 10 digits).length + power
  if digits = 0 ∨ places < -reach then 0
  else if reach < places then F.infinity
  else
    let scaled := scaleByPowerOfTen digits 1 power
    F.nearest scaled.1 scaled.2

end FloatFormat

/-- A number of a floating-point format, as its bit pattern.  Two of them are equal when their bits are: a NaN equals
itself, and the two zeros differ. -/
structure Floating (F : FloatFormat) where
  bits : BitVec F.width
  deriving DecidableEq

abbrev Single := Floating .single

abbrev Double := Floating .double

namespace Floating

variable {F G : FloatFormat}

def magnitude (x : Floating F) : Nat := x.bits.toNat % F.signBit

def negative (x : Floating F) : Bool := x.bits.msb

def ofMagnitude (F : FloatFormat) (negative : Bool) (magnitude : Nat) : Floating F :=
  ⟨BitVec.ofNat F.width (if negative then F.signBit + magnitude else magnitude)⟩

def isFinite (x : Floating F) : Bool := x.magnitude < F.infinity
def isInfinite (x : Floating F) : Bool := x.magnitude = F.infinity
def isNaN (x : Floating F) : Bool := F.infinity < x.magnitude

def zero (F : FloatFormat) : Floating F := ofMagnitude F false 0
def negZero (F : FloatFormat) : Floating F := ofMagnitude F true 0
def one (F : FloatFormat) : Floating F := ofMagnitude F false (F.nearest 1 1)
def infinite (F : FloatFormat) (negative : Bool) : Floating F := ofMagnitude F negative F.infinity

/-- The NaN that is known by name: of its fraction no bit is set but the first one. -/
def nan (F : FloatFormat) (negative : Bool) : Floating F := ofMagnitude F negative (F.infinity + F.quietBit)

instance : Inhabited (Floating F) := ⟨zero F⟩

def ofInt (F : FloatFormat) (i : Int) : Floating F :=
  ofMagnitude F (i < 0) (F.nearest i.natAbs 1)

def ofDecimal (F : FloatFormat) (negative : Bool) (digits : Nat) (power : Int) : Floating F :=
  ofMagnitude F negative (F.nearestDecimal digits power)

/-- The number of another format nearest to this one.  Infinity stays; a NaN keeps its sign and the leading bits of its
fraction, and its first fraction bit is set. -/
def convert (G : FloatFormat) (x : Floating F) : Floating G :=
  if x.isNaN then
    let payload := (x.magnitude - F.infinity) * G.leadingBit / F.leadingBit
    ofMagnitude G x.negative (G.infinity + (payload ||| G.quietBit))
  else if x.isInfinite then infinite G x.negative
  else
    let scaled := scaleByPowerOfTwo (F.significand x.magnitude) 1 (F.exponent x.magnitude)
    ofMagnitude G x.negative (G.nearest scaled.1 scaled.2)

def toInt? (x : Floating F) : Option Int :=
  if x.isFinite then
    let scaled := scaleByPowerOfTwo (F.significand x.magnitude) 1 (F.exponent x.magnitude)
    if scaled.1 % scaled.2 = 0 then
      let whole : Int := (scaled.1 / scaled.2 : Nat)
      some (if x.negative then -whole else whole)
    else none
  else none

/-- Equality of the numbers: a NaN equals nothing, and the two zeros are equal. -/
def sameNumber (x y : Floating F) : Bool :=
  !x.isNaN && !y.isNaN && (x.bits == y.bits || (x.magnitude == 0 && y.magnitude == 0))

end Floating
end AssetRecords
