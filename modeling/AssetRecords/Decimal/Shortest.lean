import AssetRecords.FloatingPoint.Format
/-!
# The shortest decimal of a floating-point number

The decimals that read back to a number are those of an interval around it, its ends included when the significand is
even.  Of the powers of ten the largest one is sought that has a multiple in the interval; of two multiples the nearer
one is taken, and the upper one when both are equally near.
-/
namespace AssetRecords
namespace Decimal

/-- A number and its interval in quarters of its last place: the number is `center` quarters of `2 ^ exponent`, and the
decimals between `low` and `high` quarters are nearer to it than to its neighbours. -/
structure RoundingInterval where
  low : Nat
  center : Nat
  high : Nat
  exponent : Int
  closed : Bool
  deriving Repr

/-- The interval of a finite pattern other than zero.  Below a power of two the neighbours are half as far apart. -/
def RoundingInterval.of (F : FloatFormat) (magnitude : Nat) : RoundingInterval :=
  let s := F.significand magnitude
  let belowIsFiner := s = F.leadingBit ∧ 2 * F.leadingBit ≤ magnitude
  { low := if belowIsFiner then 4 * s - 1 else 4 * s - 2
    center := 4 * s
    high := 4 * s + 2
    exponent := F.exponent magnitude - 2
    closed := s % 2 = 0 }

namespace RoundingInterval

def quarter (i : RoundingInterval) (power : Int) : Nat × Nat :=
  let scaled := scaleByPowerOfTwo 1 1 i.exponent
  scaleByPowerOfTen scaled.1 scaled.2 (-power)

def holds (i : RoundingInterval) (digits : Nat) (power : Int) : Bool :=
  let unit := i.quarter power
  let point := digits * unit.2
  if i.closed then i.low * unit.1 ≤ point && point ≤ i.high * unit.1
  else i.low * unit.1 < point && point < i.high * unit.1

/-- The multiple of ten to `power` just below the number, or the number itself. -/
def floorAt (i : RoundingInterval) (power : Int) : Nat :=
  let unit := i.quarter power
  i.center * unit.1 / unit.2

/-- The upper neighbour is the nearer one, or both are equally near. -/
def nearerAbove (i : RoundingInterval) (power : Int) : Bool :=
  let unit := i.quarter power
  unit.2 ≤ 2 * (i.center * unit.1 % unit.2)

/-- The multiple of ten to `power` that stands for the number, if there is one. -/
def onGrid? (i : RoundingInterval) (power : Int) : Option Nat :=
  let below := i.floorAt power
  let above := below + 1
  match i.holds below power, i.holds above power with
  | true, true => some (if i.nearerAbove power then above else below)
  | true, false => some below
  | false, true => some above
  | false, false => none

/-- From `lowest + steps` downward the first power of ten with a multiple in the interval.  At the lowest power the
number itself is taken. -/
def search (i : RoundingInterval) (lowest : Int) : Nat → Nat × Int
  | 0 => (i.floorAt lowest, lowest)
  | steps + 1 =>
    let power := lowest + (steps + 1 : Nat)
    match i.onGrid? power with
    | some digits => (digits, power)
    | none => search i lowest steps

/-- A power of ten above every decimal of the interval. -/
def ceilingPower (i : RoundingInterval) : Int :=
  Int.fdiv (((i.high.log2 : Int) + i.exponent + 1) * 30103) 100000 + 2

def exactPower (i : RoundingInterval) : Int := min (i.exponent + 2) 0

end RoundingInterval

/-- The shortest decimal `digits · 10 ^ power` that reads back to a finite pattern other than zero. -/
def shortest (F : FloatFormat) (magnitude : Nat) : Nat × Int :=
  let i := RoundingInterval.of F magnitude
  i.search i.exactPower (i.ceilingPower - i.exactPower).toNat

/-- A decimal in positional notation, without exponent and without a point that nothing follows. -/
def positional (digits : Nat) (power : Int) : List Char :=
  let ds := Nat.toDigits 10 digits
  let places := (-power).toNat
  if places = 0 then ds ++ List.replicate power.toNat '0'
  else if places < ds.length then ds.take (ds.length - places) ++ '.' :: ds.drop (ds.length - places)
  else '0' :: '.' :: List.replicate (places - ds.length) '0' ++ ds

end Decimal

/-- The text of a number: its shortest decimal, in positional notation; a NaN has no sign. -/
def Floating.chars {F : FloatFormat} (x : Floating F) : List Char :=
  if x.isNaN then ['N', 'a', 'N']
  else
    let body :=
      if x.isInfinite then ['i', 'n', 'f']
      else if x.magnitude = 0 then ['0']
      else
        let shortest := Decimal.shortest F x.magnitude
        Decimal.positional shortest.1 shortest.2
    if x.negative then '-' :: body else body

def Floating.text {F : FloatFormat} (x : Floating F) : String := String.ofList x.chars

end AssetRecords
