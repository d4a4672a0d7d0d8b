import AssetRecords.FloatingPoint.Format
/-!
# Reading decimal numbers

Three readers of a whole text: a natural number of 64 bits, a signed whole number of 64 bits, and a decimal with
fraction and exponent.  None of them admits blanks or separators.
-/
namespace AssetRecords
namespace Decimal

def digits? (cs : List Char) : Option Nat :=
  if !cs.isEmpty && cs.all Char.isDigit then some (Nat.ofDigitChars 10 cs 0) else none

/-- A natural number of 64 bits, with or without a plus sign. -/
def natural? (cs : List Char) : Option UInt64 := do
  let n ← digits? (match cs with | '+' :: rest => rest | _ => cs)
  if n < UInt64.size then some (UInt64.ofNat n) else none

def integer? (cs : List Char) : Option Int64 := do
  let i : Int ← match cs with
    | '-' :: rest => (digits? rest).map fun n => -(n : Int)
    | '+' :: rest => (digits? rest).map Int.ofNat
    | _ => (digits? cs).map Int.ofNat
  if Int64.minValue.toInt ≤ i ∧ i ≤ Int64.maxValue.toInt then some (Int64.ofInt i) else none

/-- The power of ten written after the exponent mark: an optional sign and digits. -/
def exponent? : List Char → Option Int
  | '-' :: rest => (digits? rest).map fun n => -(n : Int)
  | '+' :: rest => (digits? rest).map Int.ofNat
  | cs => (digits? cs).map Int.ofNat

def isExponentMark (c : Char) : Bool := c == 'e' || c == 'E'

/-- A decimal without sign: digits with at most one point among them and a digit on one side of it, then at most one
exponent.  The answer is `digits · 10 ^ power`. -/
def unsigned? (cs : List Char) : Option (Nat × Int) := do
  let mantissa := cs.takeWhile (!isExponentMark ·)
  let power ← match cs.dropWhile (!isExponentMark ·) with
    | [] => some 0
    | _ :: rest => exponent? rest
  let whole := mantissa.takeWhile (· != '.')
  let fraction := (mantissa.dropWhile (· != '.')).drop 1
  let digits ← digits? (whole ++ fraction)
  some (digits, power - fraction.length)

def isWord (word : String) (cs : List Char) : Bool := cs.map Char.toLower == word.toList

/-- A floating-point number: an optional sign, then a decimal, or infinity or NaN by name in any letter case. -/
def floating? (F : FloatFormat) (cs : List Char) : Option (Floating F) :=
  match cs with
  | '-' :: rest => body true rest
  | '+' :: rest => body false rest
  | _ => body false cs
where
  body (negative : Bool) (cs : List Char) : Option (Floating F) :=
    if isWord "inf" cs || isWord "infinity" cs then some (.infinite F negative)
    else if isWord "nan" cs then some (.nan F negative)
    else (unsigned? cs).map fun d => .ofDecimal F negative d.1 d.2

end Decimal
end AssetRecords
