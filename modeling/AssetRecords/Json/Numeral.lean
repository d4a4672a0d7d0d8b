import AssetRecords.Scalar.Number
/-!
# Numbers of JSON texts

How a number is spelled, and what the reader makes of it.  A whole number of 64 bits is read exactly.  Of any other
number as many digits as there is room for are taken into a significand of 64 bits; the double nearest to it is
multiplied with a power of ten or divided by one, which is a double too, and every step rounds.  What is infinite then
is refused.
-/
namespace AssetRecords
namespace Json

/-- A reader of the front of a text: what it read and what is left, or nothing. -/
abbrev Reader (α : Type) := List Char → Option (α × List Char)

/-!
## Spelling
-/

def digitsAt (cs : List Char) : List Char × List Char := (cs.takeWhile Char.isDigit, cs.dropWhile Char.isDigit)

/-- One or more digits at the front, after a mark; nothing at all without the mark. -/
def fraction? : Reader (List Char) := fun cs =>
  match cs with
  | '.' :: rest =>
    let (digits, rest) := digitsAt rest
    if digits.isEmpty then none else some (digits, rest)
  | _ => some ([], cs)

/-- The power of ten after an exponent mark, if there is a mark. -/
def exponent? : Reader (Option Int) := fun cs =>
  match cs with
  | c :: rest =>
    if c = 'e' ∨ c = 'E' then
      let (negative, rest) := match rest with
        | '-' :: rest => (true, rest)
        | '+' :: rest => (false, rest)
        | _ => (false, rest)
      let (digits, rest) := digitsAt rest
      if digits.isEmpty then none
      else
        let n : Int := Nat.ofDigitChars 10 digits 0
        some (some (if negative then -n else n), rest)
    else some (none, cs)
  | [] => some (none, [])

/-- The digits before the point: a single zero, or digits that begin with another. -/
def whole? : Reader (List Char) := fun cs =>
  match digitsAt cs with
  | ([], _) => none
  | ('0' :: _ :: _, _) => none
  | r => some r

/-- A number as it is spelled: its sign, the digits before and behind the point, and the power of ten. -/
structure Literal where
  negative : Bool
  whole : List Char
  fraction : List Char
  exponent : Option Int

/-- The parts of a number whose sign is known. -/
def parts? (negative : Bool) (cs : List Char) : Option Literal := do
  let (whole, cs) ← whole? cs
  let (fraction, cs) ← fraction? cs
  let (exponent, cs) ← exponent? cs
  if cs.isEmpty then return ⟨negative, whole, fraction, exponent⟩ else none

/-- The parts of a text that is a number from end to end. -/
def literal? (cs : List Char) : Option Literal :=
  match cs with
  | '-' :: rest => parts? true rest
  | _ => parts? false cs

/-!
## Values
-/

/-- A significand with digits put behind it, as long as it fits 64 bits, and how many digits were left then. -/
def gather (significand : Nat) : List Char → Nat × Nat
  | [] => (significand, 0)
  | c :: cs =>
    let more := 10 * significand + (c.toNat - '0'.toNat)
    if more < UInt64.size then gather more cs else (significand, cs.length + 1)

/-- The significand and the power of ten that stand for a number.  Digits before the point that do not fit into the
significand count for the power; those behind it are passed over. -/
def Literal.decimal (l : Literal) : Nat × Int :=
  let whole := gather 0 l.whole
  let all := gather whole.1 l.fraction
  let power : Int := whole.2 - (l.fraction.length - all.2 : Nat)
  (all.1, power + l.exponent.getD 0)

/-- The greatest power of ten that there is a double for. -/
def maxPower : Nat := 308

def tenTo (power : Nat) : Nat := FloatFormat.double.nearest (Nat.pow 10 power) 1

/-- A pattern that is divided so many times by the greatest power of ten, unless nothing is left before. -/
def reduce (magnitude : Nat) : (times : Nat) → Nat
  | 0 => magnitude
  | times + 1 => if magnitude = 0 then 0 else reduce (FloatFormat.double.quotient magnitude (tenTo maxPower)) times

/-- The pattern that `significand · 10 ^ power` is read as: not always the nearest one, since every step rounds. -/
def approximate (significand : Nat) (power : Int) : Nat :=
  let magnitude := FloatFormat.double.nearest significand 1
  if maxPower < power then if magnitude = 0 then 0 else FloatFormat.double.infinity
  else if 0 ≤ power then FloatFormat.double.product magnitude (tenTo power.toNat)
  else
    let times := ((-power).toNat - 1) / maxPower
    FloatFormat.double.quotient (reduce magnitude times) (tenTo ((-power).toNat - maxPower * times))

/-- The number that is spelled: an integer unless it has a fraction or an exponent. -/
def Literal.number? (l : Literal) : Option Number :=
  let digits := Nat.ofDigitChars 10 l.whole 0
  let isInteger := l.fraction.isEmpty && l.exponent.isNone
  if isInteger && !l.negative && digits < UInt64.size then some (.uint (UInt64.ofNat digits))
  else if isInteger && l.negative && digits ≠ 0 && Int64.minValue.toInt ≤ -(digits : Int) then
    some (.int (Int64.ofInt (-(digits : Int))))
  else
    let x := Floating.ofMagnitude .double l.negative (approximate l.decimal.1 l.decimal.2)
    if x.isFinite then some (.float x) else none

def readNumber? (token : List Char) : Option Number := (literal? token).bind Literal.number?

end Json
end AssetRecords
