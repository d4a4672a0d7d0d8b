import AssetRecords.Asset.Grammar
import AssetRecords.Png.Raster
/-!
# Images

An image is a picture in colours whose first row is the bottom one.  Pictures come from PNG files, whose first row is
the top one.
-/
namespace AssetRecords

inductive ImageColor where
  | rgb
  | rgba
  deriving DecidableEq, Repr

namespace ImageColor

def channels : ImageColor → UInt8
  | rgb => 3
  | rgba => 4

def table : EnumTable := ⟨"ImageColor", [(0, "rgb"), (1, "rgba")]⟩

/-- The number of a colour among the variants of its table. -/
def variant : ImageColor → Nat
  | rgb => 0
  | rgba => 1

end ImageColor

/-- A picture, its rows from the bottom up; the pixels have one number for each sample, of 8 or 16 bits. -/
structure Image where
  width : UInt32 := 0
  height : UInt32 := 0
  bitDepth : UInt8 := 0
  channels : UInt8 := 0
  color : ImageColor := .rgb
  pixels : Buffer := {}
  deriving DecidableEq

namespace Image

/-- The rows of so many bytes each, the last one first. -/
def flipRows (rowBytes : Nat) : (count : Nat) → Bytes → Bytes
  | 0, _ => []
  | count + 1, data => flipRows rowBytes count (data.drop rowBytes) ++ data.take rowBytes

def ofRaster (r : Png.Raster) (memory : Nat := Buffer.memoryLimit) : Except Error Image := do
  let color : ImageColor := if r.hasAlpha then .rgba else .rgb
  let samples := r.width * r.height * color.channels.toNat
  let type : ScalarType := if r.depth = 8 then .uint8 else .uint16
  let rowBytes := r.data.length / max 1 r.height
  let pixels ← Buffer.ofPayload type samples (flipRows rowBytes r.height r.data) memory
  return {
    width := UInt32.ofNat r.width
    height := UInt32.ofNat r.height
    bitDepth := UInt8.ofNat r.depth
    channels := color.channels
    color
    pixels }

/-- The image of the bytes of a file.  That a picture has no colours is noticed before its pixels are read. -/
def ofBytes (data : Bytes) : Except Error Image :=
  match Png.Preamble.read? data with
  | none => .error .picture
  | some (preamble, rest) =>
    match preamble.grayLayout? with
    | some layout => .error (.unsupportedImage ("color type " ++ layout))
    | none =>
      match Png.Raster.read? preamble rest with
      | none => .error .picture
      | some raster => ofRaster raster

def read (content : Content) : Except Error Image := (ofBytes content.data).mapError (·.named content.path)

def toValue (i : Image) : Value :=
  .record "Image" [
    ("width", .ofInt .uint32 i.width.toNat),
    ("height", .ofInt .uint32 i.height.toNat),
    ("bit_depth", .ofInt .uint8 i.bitDepth.toNat),
    ("channels", .ofInt .uint8 i.channels.toNat),
    ("color", .enum ImageColor.table i.color.variant),
    ("pixels", .buffer i.pixels)]

end Image
end AssetRecords
