import AssetRecords.Bytes
import AssetRecords.Deflate.Code
/-!
# Inflating

Compressed data is a header of two bytes and a row of blocks: stored bytes, or literals and copies of what came before,
written in prefix codes that are fixed or sent along.  Bits are taken from the least significant end of each byte.

A stream may come in pieces, and its reader wants a number of bytes and no more.  So an inflater goes step by step: a
step that lacks bits waits for the next piece, and what stands behind the bytes that are wanted is not looked at: it may
be corrupt or missing.
-/
namespace AssetRecords
namespace Deflate

/-- The bits of bytes in the order in which they are read. -/
def bitsOf (bytes : Bytes) : Bits := bytes.flatMap fun b => (List.range 8).map fun i => b.toNat.testBit i

def bit : BitReading Bool
  | [] => .error .starved
  | b :: bits => .ok (b, bits)

/-- A number of so many bits, the least significant one first. -/
def number : Nat → BitReading Nat
  | 0 => return 0
  | count + 1 => do
    let b ← bit
    return b.toNat + 2 * (← number count)

def required {α : Type} : Option α → BitReading α
  | some a => return a
  | none => throw .corrupt

/-- For each length symbol the least length and how many bits are added to it. -/
def lengthTable : List (Nat × Nat) := [
  (3, 0), (4, 0), (5, 0), (6, 0), (7, 0), (8, 0), (9, 0), (10, 0), (11, 1), (13, 1), (15, 1), (17, 1), (19, 2),
  (23, 2), (27, 2), (31, 2), (35, 3), (43, 3), (51, 3), (59, 3), (67, 4), (83, 4), (99, 4), (115, 4), (131, 5),
  (163, 5), (195, 5), (227, 5), (258, 0)]

def distanceTable : List (Nat × Nat) := [
  (1, 0), (2, 0), (3, 0), (4, 0), (5, 1), (7, 1), (9, 2), (13, 2), (17, 3), (25, 3), (33, 4), (49, 4), (65, 5),
  (97, 5), (129, 6), (193, 6), (257, 7), (385, 7), (513, 8), (769, 8), (1025, 9), (1537, 9), (2049, 10), (3073, 10),
  (4097, 11), (6145, 11), (8193, 12), (12289, 12), (16385, 13), (24577, 13)]

def extended (table : List (Nat × Nat)) (symbol : Nat) : BitReading Nat := do
  let (base, extra) ← required table[symbol]?
  return base + (← number extra)

/-- What a step adds to the bytes: nothing, one byte, or copies of the bytes at a distance from the end. -/
inductive Item where
  | nothing
  | literal (b : UInt8)
  | copy (distance length : Nat)
  deriving DecidableEq, Repr

namespace Item

/-- So many bytes more, each a copy of the one at a distance before it. -/
def copyBack (distance : Nat) : (count : Nat) → Array UInt8 → Array UInt8
  | 0, out => out
  | count + 1, out => copyBack distance count (out.push (out.getD (out.size - distance) 0))

/-- The bytes with an item behind them.  A copy does not reach back further than they do. -/
def addTo? : Item → Array UInt8 → Option (Array UInt8)
  | nothing, out => some out
  | literal b, out => some (out.push b)
  | copy distance length, out => if out.size < distance then none else some (copyBack distance length out)

end Item

/-- The order in which the lengths of the code for lengths are sent. -/
def lengthOrder : List Nat := [16, 17, 18, 0, 8, 7, 9, 6, 10, 5, 11, 4, 12, 3, 13, 2, 14, 1, 15]

def triples : (count : Nat) → BitReading (List Nat)
  | 0 => return []
  | count + 1 => do
    let n ← number 3
    return n :: (← triples count)

/-- Lengths of code words behind those that are read already, the last of which comes first.  A symbol stands for a
length, for the last length again some times, or for zero some times. -/
def lengths (code : Code) (count : Nat) : (fuel : Nat) → List Nat → BitReading (List Nat)
  | 0, _ => throw .corrupt
  | fuel + 1, done =>
    if done.length = count then return done.reverse
    else if count < done.length then throw .corrupt
    else do
      let symbol ← code.read
      if symbol < 16 then lengths code count fuel (symbol :: done)
      else
        let (value, base, extra) : Option Nat × Nat × Nat :=
          if symbol = 16 then (done.head?, 3, 2) else if symbol = 17 then (some 0, 3, 3) else (some 0, 11, 7)
        let value ← required value
        let n ← number extra
        lengths code count fuel (List.replicate (base + n) value ++ done)

def endOfBlock : Nat := 256

def isDistanceCode : Code → Bool
  | .empty | .fork (.symbol _) .empty => true
  | code => code.isComplete

/-- The codes that a block sends along, that of literals and lengths first. -/
def codes : BitReading (Code × Code) := do
  let literalCount := (← number 5) + 257
  let distanceCount := (← number 5) + 1
  let lengthCount := (← number 4) + 4
  if 286 < literalCount ∨ 30 < distanceCount then throw .corrupt
  else
    let sent ← triples lengthCount
    let lengthCode ← required (Code.ofLengths? ((List.range 19).map fun s => ((lengthOrder.zip sent).lookup s).getD 0))
    if !lengthCode.isComplete then throw .corrupt
    else
      let total := literalCount + distanceCount
      let all ← lengths lengthCode total (total + 1) []
      let literals ← required (Code.ofLengths? (all.take literalCount))
      let distances ← required (Code.ofLengths? (all.drop literalCount))
      if literals.isComplete && isDistanceCode distances && all[endOfBlock]? != some 0 then return (literals, distances)
      else throw .corrupt

def fixedLiterals : Code :=
  (Code.ofLengths?
    (List.replicate 144 8 ++ List.replicate 112 9 ++ List.replicate 24 7 ++ List.replicate 8 8)).getD .empty

def fixedDistances : Code := (Code.ofLengths? (List.replicate 32 5)).getD .empty

/-- What is to be read next: the header of the stream, that of a block, the bytes of a stored block, of which there are
`count` more after the next one, the symbols of a compressed block, or nothing any more. -/
inductive Phase where
  | header
  | block
  | stored (count : Nat) (isLast : Bool)
  | compressed (literals distances : Code) (isLast : Bool)
  | finished
  deriving DecidableEq, Repr

namespace Phase

def afterBlock (isLast : Bool) : Phase := if isLast then finished else block

def bytesLeft (isLast : Bool) : (count : Nat) → Phase
  | 0 => afterBlock isLast
  | count + 1 => stored count isLast

/-- The header of a stream: its method is known, its window is not too large, it needs no dictionary, and as a number it
is divided by 31. -/
def readHeader : BitReading Phase := do
  let method ← number 8
  let flags ← number 8
  if method % 16 ≠ 8 ∨ 0x80 ≤ method ∨ flags.testBit 5 ∨ (method * 256 + flags) % 31 ≠ 0 then throw .corrupt
  else return block

/-- The beginning of a block.  Before a stored one the rest of the present byte is passed over. -/
def readBlock : BitReading Phase := do
  let isLast ← bit
  match ← number 2 with
  | 0 =>
    modify fun bits => bits.drop (bits.length % 8)
    let length ← number 16
    let complement ← number 16
    if length + complement ≠ 0xffff then throw .corrupt else return bytesLeft isLast length
  | 1 => return compressed fixedLiterals fixedDistances isLast
  | 2 =>
    let (literals, distances) ← codes
    return compressed literals distances isLast
  | _ => throw .corrupt

def readSymbol (literals distances : Code) (isLast : Bool) : BitReading (Item × Phase) := do
  let symbol ← literals.read
  if symbol < endOfBlock then return (.literal (UInt8.ofNat symbol), compressed literals distances isLast)
  else if symbol = endOfBlock then return (.nothing, afterBlock isLast)
  else
    let length ← extended lengthTable (symbol - endOfBlock - 1)
    let distance ← extended distanceTable (← distances.read)
    return (.copy distance length, compressed literals distances isLast)

/-- One step through a stream.  It takes a bit at least, as no word of a code is empty. -/
def step : Phase → BitReading (Item × Phase)
  | header => return (.nothing, ← readHeader)
  | block => return (.nothing, ← readBlock)
  | stored count isLast => return (.literal (UInt8.ofNat (← number 8)), bytesLeft isLast count)
  | compressed literals distances isLast => readSymbol literals distances isLast
  | finished => throw .starved

end Phase

/-- A stream that is read so far: what is to come next, the bits that wait for more of them, and the bytes. -/
structure Inflater where
  phase : Phase := .header
  bits : Bits := []
  out : Array UInt8 := #[]
  deriving DecidableEq

namespace Inflater

/-- Steps as long as the bits last and there are fewer bytes than are wanted, so many steps at most. -/
def run? (size : Nat) : (fuel : Nat) → Inflater → Option Inflater
  | 0, i => some i
  | fuel + 1, ⟨phase, bits, out⟩ =>
    if size ≤ out.size then some ⟨phase, bits, out⟩
    else
      match phase.step bits with
      | .error .starved => some ⟨phase, bits, out⟩
      | .error .corrupt => none
      | .ok ((item, phase), bits) =>
        match item.addTo? out with
        | none => none
        | some out => run? size fuel ⟨phase, bits, out⟩

/-- One piece of the stream more.  Each step takes a bit at least, so that the number of bits is fuel enough. -/
def feed? (size : Nat) (i : Inflater) (piece : Bytes) : Option Inflater :=
  let bits := i.bits ++ bitsOf piece
  run? size bits.length { i with bits }

/-- At least so many bytes of a stream that goes on with these pieces.  Once they are there, nothing that follows is
read. -/
def atLeast? (size : Nat) : Inflater → List Bytes → Option (Array UInt8)
  | _, [] => none
  | i, piece :: pieces =>
    match i.feed? size piece with
    | none => none
    | some i => if size ≤ i.out.size then some i.out else atLeast? size i pieces

theorem le_size_of_atLeast? {size : Nat} {out : Array UInt8} :
    ∀ {pieces : List Bytes} {i : Inflater}, atLeast? size i pieces = some out → size ≤ out.size
  | [], _, h => by simp [atLeast?] at h
  | piece :: pieces, i, h => by
    unfold atLeast? at h
    split at h
    · exact absurd h (by simp)
    · split at h
      · next hs => exact Option.some.inj h ▸ hs
      · exact le_size_of_atLeast? h

end Inflater

def inflate? (size : Nat) (pieces : List Bytes) : Option (Array UInt8) := Inflater.atLeast? size {} pieces

end Deflate
end AssetRecords
