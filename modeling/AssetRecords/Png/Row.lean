import AssetRecords.Png.Header
/-!
# Rows of a picture

Each stored row begins with the number of its filter, by which each byte is the difference to a prediction from its
neighbours.  An interlaced picture is stored in seven passes over a grid that gets finer; any other is a single pass.
-/
namespace AssetRecords
namespace Png

/-- The neighbour that is nearest to left + above - upper left; of equally near ones, the first in this order. -/
def paeth (left above upperLeft : UInt8) : UInt8 :=
  let estimate : Int := left.toNat + above.toNat - upperLeft.toNat
  let toLeft := (estimate - left.toNat).natAbs
  let toAbove := (estimate - above.toNat).natAbs
  let toUpperLeft := (estimate - upperLeft.toNat).natAbs
  if toLeft ≤ toAbove ∧ toLeft ≤ toUpperLeft then left
  else if toAbove ≤ toUpperLeft then above
  else upperLeft

def prediction? (filter : UInt8) (left above upperLeft : UInt8) : Option UInt8 :=
  match filter with
  | 0 => some 0
  | 1 => some left
  | 2 => some above
  | 3 => some (UInt8.ofNat ((left.toNat + above.toNat) / 2))
  | 4 => some (paeth left above upperLeft)
  | _ => none

/-- The bytes of a row, of which those in `done` are known.  `unit` is the number of bytes of a pixel, and `above` the
row before. -/
def unfilter? (filter : UInt8) (unit : Nat) (above : Array UInt8) : Bytes → (done : Array UInt8) → Option (Array UInt8)
  | [], done => some done
  | b :: rest, done =>
    let i := done.size
    let before (row : Array UInt8) : UInt8 := if i < unit then 0 else row.getD (i - unit) 0
    match prediction? filter (before done) (above.getD i 0) (before above) with
    | none => none
    | some p => unfilter? filter unit above rest (done.push (b + p))

/-- So many rows of a number of bytes each, and what follows them. -/
def rows? (unit rowBytes : Nat) : (count : Nat) → (above : Array UInt8) → Bytes → Option (List Bytes × Bytes)
  | 0, _, data => some ([], data)
  | count + 1, above, data =>
    match data with
    | [] => none
    | filter :: data =>
      let row := data.take rowBytes
      if row.length < rowBytes then none
      else do
        let row ← unfilter? filter unit above row #[]
        let (rest, data) ← rows? unit rowBytes count row (data.drop rowBytes)
        return (row.toList :: rest, data)

/-- A pass over a picture: every so many columns and rows, from a first one on. -/
structure Pass where
  left : Nat
  top : Nat
  columnStep : Nat
  rowStep : Nat

/-- How many of `count` places are met from `first` on, in steps. -/
def placesMet (count first step : Nat) : Nat := (count - first + (step - 1)) / step

def passes (interlaced : Bool) : List Pass :=
  if interlaced then
    [⟨0, 0, 8, 8⟩, ⟨4, 0, 8, 8⟩, ⟨0, 4, 4, 8⟩, ⟨2, 0, 4, 4⟩, ⟨0, 2, 2, 4⟩, ⟨1, 0, 2, 2⟩, ⟨0, 1, 1, 2⟩]
  else [⟨0, 0, 1, 1⟩]

def Pass.columns (pass : Pass) (h : Header) : Nat := placesMet h.width pass.left pass.columnStep

/-- How many rows of a picture a pass meets; one that meets no columns has none. -/
def Pass.rows (pass : Pass) (h : Header) : Nat :=
  if pass.columns h = 0 then 0 else placesMet h.height pass.top pass.rowStep

/-- How many bytes a row of so many pixels has, its filter aside. -/
def Header.rowBytes (h : Header) (columns : Nat) : Nat := (columns * (h.color.samples * h.depth) + 7) / 8

def Header.storedSize (h : Header) : Nat :=
  (passes h.interlaced).foldr (fun pass size => pass.rows h * (1 + h.rowBytes (pass.columns h)) + size) 0

/-- The samples of a row, each of so many bits; samples of 16 bits are given by two bytes. -/
def samples (depth : Nat) (row : Bytes) : List Nat :=
  if depth = 16 then pairs row
  else if depth = 8 then row.map UInt8.toNat
  else
    row.flatMap fun b =>
      (List.range (8 / depth)).map fun i => (b.toNat >>> (8 - depth * (i + 1))) % Nat.pow 2 depth
where
  pairs : Bytes → List Nat
    | high :: low :: rest => (high.toNat * 256 + low.toNat) :: pairs rest
    | _ => []

def groups (size : Nat) : (count : Nat) → List Nat → List (List Nat)
  | 0, _ => []
  | count + 1, samples => samples.take size :: groups size count (samples.drop size)

def place (width : Nat) (pass : Pass) (row : Nat) (pixels : List (List Nat)) (canvas : Array (List Nat)) :
    Array (List Nat) :=
  pixels.zipIdx.foldl (fun canvas p =>
    canvas.setIfInBounds ((pass.top + row * pass.rowStep) * width + pass.left + p.2 * pass.columnStep) p.1) canvas

/-- The pixels of a picture, from the passes that are still to come. -/
def readPasses? (h : Header) : List Pass → Bytes → Array (List Nat) → Option (Array (List Nat))
  | [], _, canvas => some canvas
  | pass :: rest, data, canvas =>
    let columns := pass.columns h
    match rows? (max 1 (h.color.samples * h.depth / 8)) (h.rowBytes columns) (pass.rows h) #[] data with
    | none => none
    | some (rows, data) =>
      let canvas := rows.zipIdx.foldl (fun canvas r =>
        place h.width pass r.2 (groups h.color.samples columns (samples h.depth r.1)) canvas) canvas
      readPasses? h rest data canvas

def pixels? (h : Header) (data : Bytes) : Option (List (List Nat)) :=
  Array.toList <$> readPasses? h (passes h.interlaced) data (Array.replicate (h.width * h.height) [])

end Png
end AssetRecords
