import AssetRecords.Deflate.Inflate
import AssetRecords.Png.Row
/-!
# Rasters

A raster is a picture as it is used: three or four samples to a pixel, of one or two bytes each.  Colours of a palette
are looked up, and a transparent colour becomes a sample of its own.
-/
namespace AssetRecords
namespace Png

/-- A picture of three or four samples to a pixel, row by row from the top.  Of a sample of two bytes the low one comes
first. -/
structure Raster where
  width : Nat
  height : Nat
  depth : Nat
  hasAlpha : Bool
  data : Bytes
  deriving DecidableEq

/-- The pieces of compressed data that bytes begin with, one for each chunk of the type.  The chunks follow each other,
and the beginning of a chunk of another type follows them.  Those of a frame begin with numbers that go on from it. -/
def pieces? (type : String) : (fuel : Nat) → (next : Nat) → Bytes → Option (List Bytes)
  | 0, _, _ => none
  | fuel + 1, next, bytes => do
    if (← ChunkHead.read? bytes).type ≠ type then some []
    else
      let (chunk, rest) ← Chunk.read? bytes
      if type = "IDAT" then return chunk.data :: (← pieces? type fuel next rest)
      else if 4 ≤ chunk.data.length ∧ ofBigEndian (chunk.data.take 4) = next then
        return chunk.data.drop 4 :: (← pieces? type fuel (next + 1) rest)
      else none

def storedRows? (p : Preamble) (bytes : Bytes) : Option Bytes := do
  let pieces ← pieces? (← ChunkHead.read? bytes).type (bytes.length + 1) p.nextFrame bytes
  return (← Deflate.inflate? p.header.storedSize pieces).toList

def opaqueSample (depth : Nat) : Nat := Nat.pow 2 depth - 1

/-- The colour that is transparent, as three numbers of two bytes each.  For samples of one byte their low bytes count;
of samples of two bytes no colour is transparent if there is more than the three. -/
def transparentColor? (depth : Nat) (data : Bytes) : Option (List Nat) :=
  if depth = 16 then if data.length = 6 then some (samples 16 data) else none
  else some ((samples 16 (data.take 6)).map (· % 256))

/-- The colour of a palette, black if it has none at the index, and its opacity, which is full where none is given.
Opacities for more colours than there are count for none. -/
def paletteColor (palette : Bytes) (transparency : Option Bytes) (index : Nat) : List Nat :=
  let color := (palette.drop (3 * index)).take 3
  let rgb := if color.length = 3 then color.map UInt8.toNat else [0, 0, 0]
  match transparency with
  | none => rgb
  | some given =>
    let alphas := if given.length ≤ palette.length / 3 then given else []
    rgb ++ [((alphas[index]?).map UInt8.toNat).getD 255]

def expand (p : Preamble) (pixel : List Nat) : List Nat :=
  match p.header.color, p.transparency with
  | .indexed, alphas => paletteColor (p.palette.getD []) alphas (pixel.headD 0)
  | .rgb, some data =>
    pixel ++ [if transparentColor? p.header.depth data = some pixel then 0 else opaqueSample p.header.depth]
  | _, _ => pixel

/-- The raster of a picture with colours, from the bytes of its pixels on. -/
def Raster.read? (p : Preamble) (bytes : Bytes) : Option Raster := do
  if p.header.color = .indexed ∧ p.palette.isNone then none
  else
    let pixels ← pixels? p.header (← storedRows? p bytes)
    return {
      width := p.header.width
      height := p.header.height
      depth := p.header.usedDepth
      hasAlpha := p.hasAlpha
      data := pixels.flatMap fun pixel => (expand p pixel).flatMap (littleEndian (p.header.usedDepth / 8)) }

end Png
end AssetRecords
