import AssetRecords.Png.Chunk
/-!
# What a file says before its pixels

The header gives the size of the picture and how a pixel is stored; a palette and transparent colours may follow it.
A critical chunk that is damaged or not known spoils the file; most other chunks are passed over.
-/
namespace AssetRecords
namespace Png

/-- What the samples of a stored pixel mean. -/
inductive ColorType where
  | gray | rgb | indexed | grayAlpha | rgba
  deriving DecidableEq, Repr

namespace ColorType

def ofCode? : UInt8 → Option ColorType
  | 0 => some gray
  | 2 => some rgb
  | 3 => some indexed
  | 4 => some grayAlpha
  | 6 => some rgba
  | _ => none

def samples : ColorType → Nat
  | gray | indexed => 1
  | grayAlpha => 2
  | rgb => 3
  | rgba => 4

def usedSamples : ColorType → Nat
  | indexed => 3
  | color => color.samples

def depths : ColorType → List Nat
  | gray => [1, 2, 4, 8, 16]
  | indexed => [1, 2, 4, 8]
  | _ => [8, 16]

end ColorType

structure Header where
  width : Nat
  height : Nat
  depth : Nat
  color : ColorType
  interlaced : Bool
  deriving DecidableEq, Repr

namespace Header

def usedDepth (h : Header) : Nat := if h.depth = 16 then 16 else 8

/-- How many bytes a picture has once it is used, opacities from elsewhere aside. -/
def usedSize (h : Header) : Nat := h.width * h.height * h.color.usedSamples * (h.usedDepth / 8)

/-- A picture has pixels, its pixels have a form that the format knows, and their bytes can be numbered by signed words
of 64 bits. -/
def isUsable (h : Header) : Bool :=
  h.width ≠ 0 && h.height ≠ 0 && h.depth ∈ h.color.depths && h.usedSize < Nat.pow 2 63

/-- The header of a chunk's data.  There is one method of compression, and one set of filters. -/
def ofData? (data : Bytes) : Option Header := do
  let [w0, w1, w2, w3, h0, h1, h2, h3, depth, color, compression, filter, interlace] := data | none
  let color ← ColorType.ofCode? color
  let h : Header := {
    width := ofBigEndian [w0, w1, w2, w3]
    height := ofBigEndian [h0, h1, h2, h3]
    depth := depth.toNat
    color
    interlaced := interlace = 1 }
  if h.isUsable ∧ compression = 0 ∧ filter = 0 ∧ interlace ≤ 1 then some h else none

end Header

/-- What is known before the pixels.  Palette and transparency are the data of their chunks; `hasCodePoints` tells that
the meaning of the samples is given by numbers, and `frame` is the number of the last frame that was announced. -/
structure Preamble where
  header : Header
  palette : Option Bytes := none
  transparency : Option Bytes := none
  hasCodePoints : Bool := false
  frame : Option Nat := none
  deriving DecidableEq

namespace Preamble

/-- A picture has one palette, of 256 colours at most, and each colour has three samples. -/
def addPalette? (p : Preamble) (data : Bytes) : Option Preamble :=
  if p.palette.isNone ∧ data ≠ [] ∧ data.length % 3 = 0 ∧ data.length ≤ 768 then some { p with palette := some data }
  else none

/-- Transparency is one colour, or a number for each of the first colours of a palette that is there.  What cannot be
that is passed over, and so is all but the first one. -/
def takesTransparency (p : Preamble) (data : Bytes) : Bool :=
  p.transparency.isNone && data ≠ [] && data.length ≤ 256 &&
    match p.header.color with
    | .gray => 2 ≤ data.length
    | .rgb => 6 ≤ data.length
    | .indexed => p.palette.isSome
    | .grayAlpha | .rgba => false

def addTransparency (p : Preamble) (data : Bytes) : Preamble :=
  if p.takesTransparency data then { p with transparency := some data } else p

/-- Of the numbers for the meaning of the samples, the third one is that of separate colours, and the last one is a truth
value.  They count only before the palette, and only once. -/
def addCodePoints? (p : Preamble) (data : Bytes) : Option Preamble :=
  match data with
  | [_, _, matrix, fullRange] =>
    if p.palette.isSome || p.hasCodePoints then some p
    else if matrix = 0 ∧ fullRange ≤ 1 then some { p with hasCodePoints := true }
    else none
  | _ => some p

def nextFrame (p : Preamble) : Nat :=
  match p.frame with
  | none => 0
  | some n => n + 1

/-- A frame before the pixels has the next number and fills the picture; how it is disposed of and blended is known. -/
def addFrame? (p : Preamble) (data : Bytes) : Option Preamble :=
  let field (start size : Nat) : Nat := ofBigEndian ((data.drop start).take size)
  if data.length = 26 ∧ field 0 4 = p.nextFrame ∧ field 4 4 = p.header.width ∧ field 8 4 = p.header.height ∧
      field 12 4 = 0 ∧ field 16 4 = 0 ∧ field 24 1 ≤ 2 ∧ field 25 1 ≤ 1 then
    some { p with frame := some p.nextFrame }
  else none

/-- What is known after one chunk more.  A chunk that is not critical is passed over if its checksum is wrong or its type
is not known. -/
def add? (p : Preamble) (c : Chunk) : Option Preamble :=
  if !c.checksumHolds && !c.isCritical then some p
  else if c.type = "PLTE" then p.addPalette? c.data
  else if c.type = "tRNS" then some (p.addTransparency c.data)
  else if c.type = "cICP" then p.addCodePoints? c.data
  else if c.type = "fcTL" then p.addFrame? c.data
  else if c.isCritical then none
  else some p

/-- Whether the pixels begin with the chunk that has this beginning.  The pixels of a frame come after what announces
it, and have room for a number. -/
def beginsPixels? (p : Preamble) (head : ChunkHead) : Option Bool :=
  if head.type = "IDAT" then some true
  else if head.type = "fdAT" then if p.frame.isSome ∧ 4 ≤ head.length then some true else none
  else some false

/-- What is known once the pixels begin, and the bytes from there on.  Each chunk takes a byte at least, so that the
number of bytes is fuel enough. -/
def readChunks? : (fuel : Nat) → Preamble → Bytes → Option (Preamble × Bytes)
  | 0, _, _ => none
  | fuel + 1, p, bytes => do
    if ← p.beginsPixels? (← ChunkHead.read? bytes) then some (p, bytes)
    else
      let (chunk, rest) ← Chunk.read? bytes
      readChunks? fuel (← p.add? chunk) rest

def hasAlpha (p : Preamble) : Bool :=
  p.transparency.isSome || p.header.color = .grayAlpha || p.header.color = .rgba

def isGray (p : Preamble) : Bool := p.header.color = .gray || p.header.color = .grayAlpha

/-- What a file says before its pixels, and the bytes from the pixels on. -/
def read? (bytes : Bytes) : Option (Preamble × Bytes) := do
  if bytes.take signature.length ≠ signature then none
  else
    let (chunk, rest) ← Chunk.read? (bytes.drop signature.length)
    if chunk.type ≠ "IHDR" then none
    else readChunks? (rest.length + 1) { header := ← Header.ofData? chunk.data } rest

/-- What a picture without colours is called in messages, by its samples once they are spread to whole bytes. -/
def grayLayout? (p : Preamble) : Option String :=
  if p.isGray then some ((if p.hasAlpha then "La" else "L") ++ (if p.header.depth = 16 then "16" else "8")) else none

end Preamble
end Png
end AssetRecords
