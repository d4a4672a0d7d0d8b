import AssetRecords.Asset.Image
import AssetRecords.Proofs.Buffer
/-!
# Image — the rows of a picture, the last one first

Bytes are cut into rows of one length, and put together again from them (`flatten_rows`, `rows_flatten`).  The rows of
an image are those of its raster in the opposite order, each of them once, so that the raster can be had again
(`rows_flipped`).  Rows that are copied one after another into a buffer of zeros come out the same, and no copy reaches
past its end (`copyRows?_eq`).
-/
namespace AssetRecords
namespace Image

/-!
## Rows
-/

/-- One of the rows of so many bytes each. -/
def row (rowBytes : Nat) (data : Bytes) (y : Nat) : Bytes := (data.drop (y * rowBytes)).take rowBytes

def rows (rowBytes count : Nat) (data : Bytes) : List Bytes := (List.range count).map (row rowBytes data)

variable {rowBytes count : Nat} {data : Bytes}

@[simp] theorem length_rows : (rows rowBytes count data).length = count := by
  rw [rows, List.length_map, List.length_range]

theorem rows_succ :
    rows rowBytes (count + 1) data = data.take rowBytes :: rows rowBytes count (data.drop rowBytes) := by
  have first : row rowBytes data 0 = data.take rowBytes := by rw [row, Nat.zero_mul, List.drop_zero]
  have next : row rowBytes data ∘ Nat.succ = row rowBytes (data.drop rowBytes) := by
    funext y
    rw [Function.comp_apply, row, row, List.drop_drop, Nat.succ_mul, Nat.add_comm]
  rw [rows, List.range_succ_eq_map, List.map_cons, List.map_map, first, next, rows]

theorem flipRows_eq : ∀ (count : Nat) (data : Bytes),
    flipRows rowBytes count data = (rows rowBytes count data).reverse.flatten
  | 0, _ => rfl
  | count + 1, data => by
    rw [flipRows, flipRows_eq count, rows_succ, List.reverse_cons, List.flatten_append, List.flatten_singleton]

/-- Data is put together again from its rows. -/
theorem flatten_rows : ∀ (count : Nat) {data : Bytes}, data.length = count * rowBytes →
    (rows rowBytes count data).flatten = data
  | 0, data, size => by
    rw [Nat.zero_mul, List.length_eq_zero_iff] at size
    rw [size]
    rfl
  | count + 1, data, size => by
    have rest : (data.drop rowBytes).length = count * rowBytes := by
      rw [List.length_drop, size, Nat.succ_mul, Nat.add_sub_cancel]
    rw [rows_succ, List.flatten_cons, flatten_rows count rest, List.take_append_drop]

/-- Rows are cut again from the data that they make up. -/
theorem rows_flatten : ∀ {xs : List Bytes}, (∀ x ∈ xs, x.length = rowBytes) → rows rowBytes xs.length xs.flatten = xs
  | [], _ => rfl
  | x :: xs, size => by
    have first := size x List.mem_cons_self
    rw [List.length_cons, rows_succ, List.flatten_cons, List.take_left' first, List.drop_left' first,
      rows_flatten fun x hx => size x (List.mem_cons_of_mem _ hx)]

theorem length_of_mem_rows (size : data.length = count * rowBytes) :
    ∀ x ∈ rows rowBytes count data, x.length = rowBytes := by
  intro x hx
  obtain ⟨y, hy, rfl⟩ := List.mem_map.1 hx
  have inside : (y + 1) * rowBytes ≤ data.length := size ▸ Nat.mul_le_mul_right _ (List.mem_range.1 hy)
  rw [Nat.succ_mul] at inside
  rw [row, List.length_take, List.length_drop]
  omega

/-- The rows of what is flipped are the rows, the last one first. -/
theorem rows_flipRows (size : data.length = count * rowBytes) :
    rows rowBytes count (flipRows rowBytes count data) = (rows rowBytes count data).reverse := by
  have sizes : ∀ x ∈ (rows rowBytes count data).reverse, x.length = rowBytes := fun x hx =>
    length_of_mem_rows size x (List.mem_reverse.1 hx)
  have again := rows_flatten sizes
  rw [List.length_reverse, length_rows] at again
  rw [flipRows_eq, again]

theorem row_flipRows (size : data.length = count * rowBytes) {y : Nat} (hy : y < count) :
    row rowBytes (flipRows rowBytes count data) y = row rowBytes data (count - 1 - y) := by
  have at_y := congrArg (·[y]?) (rows_flipRows size)
  have mirrored : count - 1 - y < count := by omega
  simpa [rows, hy, mirrored] using at_y

theorem length_flipRows (size : data.length = count * rowBytes) :
    (flipRows rowBytes count data).length = data.length := by
  conv => rhs; rw [← flatten_rows count size]
  rw [flipRows_eq, List.length_flatten, List.length_flatten, List.map_reverse, List.sum_reverse]

/-- What is flipped twice is as it was. -/
theorem flipRows_flipRows (size : data.length = count * rowBytes) :
    flipRows rowBytes count (flipRows rowBytes count data) = data := by
  rw [flipRows_eq count (flipRows rowBytes count data), rows_flipRows size, List.reverse_reverse,
    flatten_rows count size]

/-!
## Copying
-/

/-- Bytes with others in the place of those between two positions, if these are within and as many. -/
def copyBetween? (target : Bytes) (start stop : Nat) (source : Bytes) : Option Bytes :=
  if start ≤ stop ∧ stop ≤ target.length ∧ source.length = stop - start then
    some (target.take start ++ source ++ target.drop stop)
  else none

/-- Rows are copied one after another, from a row `y` on, each to the place that it has from below. -/
def copyRows? (height rowBytes : Nat) : (y : Nat) → List Bytes → (target : Bytes) → Option Bytes
  | _, [], target => some target
  | y, source :: rest, target =>
    if y < height then
      (copyBetween? target ((height - 1 - y) * rowBytes) ((height - 1 - y + 1) * rowBytes) source).bind
        (copyRows? height rowBytes (y + 1) rest)
    else none

/-- The whole pieces of a size that data begins with. -/
def chunks (size : Nat) (data : Bytes) : List Bytes := rows size (data.length / size) data

/-- What is copied so far stands at the end, and each further row goes in front of it. -/
theorem copyRows?_append {height : Nat} : ∀ {y : Nat} {sources : List Bytes} {front done : Bytes},
    (∀ x ∈ sources, x.length = rowBytes) → y + sources.length = height → front.length = sources.length * rowBytes →
    copyRows? height rowBytes y sources (front ++ done) = some (sources.reverse.flatten ++ done)
  | y, [], front, done, _, _, room => by
    rw [List.length_nil, Nat.zero_mul, List.length_eq_zero_iff] at room
    rw [copyRows?, room]
    rfl
  | y, source :: rest, front, done, size, all, room => by
    rw [List.length_cons] at all room
    have place : height - 1 - y = rest.length := by omega
    have stop : (rest.length + 1) * rowBytes = front.length := room.symm
    have start : rest.length * rowBytes ≤ front.length := by
      rw [room, Nat.succ_mul]
      exact Nat.le_add_right _ _
    have fits : rest.length * rowBytes ≤ front.length ∧ front.length ≤ (front ++ done).length ∧
        source.length = front.length - rest.length * rowBytes := by
      have := size source List.mem_cons_self
      rw [List.length_append, room, Nat.succ_mul]
      omega
    have copied : copyBetween? (front ++ done) (rest.length * rowBytes) front.length source =
        some (front.take (rest.length * rowBytes) ++ (source ++ done)) := by
      rw [copyBetween?, if_pos fits, List.take_append_of_le_length start, List.drop_left, List.append_assoc]
    have next : copyRows? height rowBytes (y + 1) rest (front.take (rest.length * rowBytes) ++ (source ++ done)) =
        some (rest.reverse.flatten ++ (source ++ done)) :=
      copyRows?_append (fun x hx => size x (List.mem_cons_of_mem _ hx)) (by omega)
        (by rw [List.length_take, Nat.min_eq_left start])
    rw [copyRows?, if_pos (by omega), place, stop, copied, Option.bind_some, next, List.reverse_cons,
      List.flatten_append, List.flatten_singleton, List.append_assoc]

/-- **Rows that are copied one after another are flipped, and every copy is within the target.** -/
theorem copyRows?_eq {height : Nat} (size : data.length = height * rowBytes) (positive : 0 < rowBytes) {target : Bytes}
    (room : target.length = data.length) :
    copyRows? height rowBytes 0 (chunks rowBytes data) target = some (flipRows rowBytes height data) := by
  have whole : data.length / rowBytes = height := by rw [size, Nat.mul_div_cancel _ positive]
  have copied : copyRows? height rowBytes 0 (rows rowBytes height data) (target ++ []) =
      some ((rows rowBytes height data).reverse.flatten ++ []) :=
    copyRows?_append (length_of_mem_rows size) (by rw [length_rows, Nat.zero_add]) (by rw [room, length_rows, size])
  rw [List.append_nil, List.append_nil] at copied
  rw [chunks, whole, copied, flipRows_eq]

end Image

/-!
## Images of rasters
-/

namespace Png.Raster

def channels (r : Raster) : Nat := if r.hasAlpha then 4 else 3

/-- The number of samples, one for each channel of each pixel. -/
def samples (r : Raster) : Nat := r.width * r.height * r.channels

def sampleType (r : Raster) : ScalarType := if r.depth = 8 then .uint8 else .uint16

/-- How many bytes a row of pixels has. -/
def rowBytes (r : Raster) : Nat := r.width * r.channels * (r.depth / 8)

/-- A raster as it is decoded: a picture that has pixels, of samples of one or two bytes each. -/
structure Regular (r : Raster) : Prop where
  width : 1 ≤ r.width
  height : 1 ≤ r.height
  depth : r.depth = 8 ∨ r.depth = 16
  size : r.data.length = r.width * r.height * r.channels * r.depth / 8

namespace Regular

variable {r : Raster}

theorem size_sampleType (regular : r.Regular) : r.sampleType.size = r.depth / 8 := by
  obtain depth | depth := regular.depth
  all_goals rw [sampleType, depth]; rfl

theorem length_data (regular : r.Regular) : r.data.length = r.samples * r.sampleType.size := by
  have whole : 8 ∣ r.depth := by
    have := regular.depth
    omega
  rw [regular.size, regular.size_sampleType, samples, Nat.mul_div_assoc _ whole]

/-- The rows make up the data. -/
theorem length_data_rows (regular : r.Regular) : r.data.length = r.height * r.rowBytes := by
  rw [regular.length_data, regular.size_sampleType, samples, rowBytes, Nat.mul_comm r.width, Nat.mul_assoc,
    Nat.mul_assoc, Nat.mul_assoc]

theorem rowBytes_pos (regular : r.Regular) : 0 < r.rowBytes := by
  have channels : 0 < r.channels := by
    rw [Raster.channels]
    split
    all_goals decide
  have sample : 0 < r.depth / 8 := by
    have := regular.depth
    omega
  exact Nat.mul_pos (Nat.mul_pos regular.width channels) sample

/-- The size of a row is found from the whole, without the width. -/
theorem div_height (regular : r.Regular) : r.data.length / max 1 r.height = r.rowBytes := by
  rw [Nat.max_eq_right regular.height, regular.length_data_rows, Nat.mul_div_cancel_left _ regular.height]

end Regular
end Png.Raster

namespace Image

variable {r : Png.Raster} {memory : Nat}

theorem channels_color : (if r.hasAlpha then ImageColor.rgba else .rgb).channels.toNat = r.channels := by
  rw [Png.Raster.channels]
  cases r.hasAlpha
  all_goals rfl

/-- There is an image of a raster exactly if its pixels can be had. -/
theorem exists_ofRaster_iff {pixels : Buffer} : (∃ image, ofRaster r memory = .ok image ∧ image.pixels = pixels) ↔
    Buffer.ofPayload r.sampleType r.samples (flipRows (r.data.length / max 1 r.height) r.height r.data) memory =
      .ok pixels := by
  rw [Png.Raster.samples, ← channels_color]
  constructor
  · rintro ⟨image, h, rfl⟩
    obtain ⟨pixels, made, ⟨⟩⟩ := Except.bind_eq_ok_iff.1 h
    exact made
  · intro made
    exact ⟨_, Except.bind_eq_ok_iff.2 ⟨pixels, made, rfl⟩, rfl⟩

/-- The pixels of an image are a buffer whose payload is that of its raster, flipped. -/
theorem pixels_iff (regular : r.Regular) {pixels : Buffer} :
    (∃ image, ofRaster r memory = .ok image ∧ image.pixels = pixels) ↔
      pixels.WellFormed memory ∧ pixels.type = r.sampleType ∧ pixels.length = r.samples ∧
        pixels.payload = flipRows r.rowBytes r.height r.data := by
  have size : (flipRows r.rowBytes r.height r.data).length = r.samples * r.sampleType.size := by
    rw [length_flipRows regular.length_data_rows, regular.length_data]
  rw [exists_ofRaster_iff, regular.div_height, Buffer.ofPayload_eq_ok_iff size]

/-- **An image exists if a block is granted for its raster.** -/
theorem exists_ofRaster_iff_granted (regular : r.Regular) :
    (∃ image, ofRaster r memory = .ok image) ↔ Buffer.Granted memory r.data.length := by
  constructor
  · rintro ⟨image, made⟩
    obtain ⟨wellFormed, type, length, -⟩ := (pixels_iff regular).1 ⟨image, made, rfl⟩
    have granted := wellFormed.granted
    rwa [Buffer.byteSize, Buffer.elementSize, type, length, ← regular.length_data] at granted
  · intro granted
    rw [regular.length_data] at granted
    have zeros := Buffer.zeroed_eq_ok_iff.2 ⟨granted, rfl⟩
    obtain ⟨image, made, -⟩ := exists_ofRaster_iff.2 (Except.bind_eq_ok_iff.2 ⟨_, zeros, rfl⟩)
    exact ⟨image, made⟩

/-- The loop copies the rows of a raster into a buffer of zeros, and never past its end. -/
theorem copyRows?_zeroed (regular : r.Regular) {zeros : Buffer}
    (h : Buffer.zeroed r.sampleType r.samples memory = .ok zeros) :
    copyRows? r.height (r.data.length / max 1 r.height) 0 (chunks (max 1 (r.data.length / max 1 r.height)) r.data)
      zeros.payload = some (flipRows r.rowBytes r.height r.data) := by
  have room : zeros.payload.length = r.data.length := by
    rw [(Buffer.wellFormed_of_zeroed h).length_payload, regular.length_data]
    obtain ⟨-, rfl⟩ := Buffer.zeroed_eq_ok_iff.1 h
    rfl
  rw [regular.div_height, Nat.max_eq_right regular.rowBytes_pos,
    copyRows?_eq regular.length_data_rows regular.rowBytes_pos room]

/-- **The rows of a raster are flipped without loss.**  Its image exists if a block is granted for it.  There is a
number for each sample, and as many bytes as the raster has; each row of the image is the one of the raster that is as
far from the other end, and the rows flipped again make up the raster.  The rows, cut by a size that is found from the
whole, may as well be copied one after another into a buffer of zeros: each copy is within it. -/
theorem rows_flipped (regular : r.Regular) (memory : Nat) :
    ((∃ image, ofRaster r memory = .ok image) ↔ Buffer.Granted memory r.data.length) ∧
    ∀ image, ofRaster r memory = .ok image →
      image.pixels.type = (if r.depth = 8 then .uint8 else .uint16) ∧
      image.pixels.length = r.width * r.height * r.channels ∧
      image.pixels.byteSize = r.data.length ∧ image.pixels.payload.length = r.data.length ∧
      (∀ y < r.height, row r.rowBytes image.pixels.payload y = row r.rowBytes r.data (r.height - 1 - y)) ∧
      rows r.rowBytes r.height image.pixels.payload = (rows r.rowBytes r.height r.data).reverse ∧
      flipRows r.rowBytes r.height image.pixels.payload = r.data ∧
      ∃ zeros, Buffer.zeroed image.pixels.type image.pixels.length memory = .ok zeros ∧
        zeros.payload.length = r.data.length ∧
        copyRows? r.height (r.data.length / max 1 r.height) 0 (chunks (max 1 (r.data.length / max 1 r.height)) r.data)
          zeros.payload = some image.pixels.payload := by
  refine ⟨exists_ofRaster_iff_granted regular, fun image made => ?_⟩
  obtain ⟨wellFormed, type, length, payload⟩ := (pixels_iff regular).1 ⟨image, made, rfl⟩
  have whole := regular.length_data_rows
  have size : image.pixels.payload.length = r.data.length := by rw [payload, length_flipRows whole]
  have byteSize : image.pixels.byteSize = r.data.length := by rw [← wellFormed.length_payload, size]
  have zeros := Buffer.zeroed_eq_ok_iff.2 ⟨wellFormed.granted, rfl⟩
  refine ⟨type, length, byteSize, size, fun y hy => ?_, ?_, ?_, _, zeros, ?_, ?_⟩
  · rw [payload, row_flipRows whole hy]
  · rw [payload, rows_flipRows whole]
  · rw [payload, flipRows_flipRows whole]
  · rw [(Buffer.wellFormed_of_zeroed zeros).length_payload]
    exact byteSize
  · rw [type, length] at zeros ⊢
    rw [payload]
    exact copyRows?_zeroed regular zeros

/-- Three rows of one pixel each, whose samples are of two bytes. -/
def column : Png.Raster where
  width := 1
  height := 3
  depth := 16
  hasAlpha := false
  data := [0, 1, 2, 3, 4, 5, 10, 11, 12, 13, 14, 15, 20, 21, 22, 23, 24, 25]

theorem rows_flipped_column : column.Regular ∧ ∃ image, ofRaster column 18 = .ok image ∧
    image.pixels.type = .uint16 ∧ image.pixels.length = 9 ∧
    rows 6 3 image.pixels.payload = [[20, 21, 22, 23, 24, 25], [10, 11, 12, 13, 14, 15], [0, 1, 2, 3, 4, 5]] := by
  have regular : column.Regular := ⟨by decide, by decide, by decide, by decide⟩
  obtain ⟨exists_iff, flipped⟩ := rows_flipped regular 18
  obtain ⟨image, made⟩ := exists_iff.2 (by decide)
  obtain ⟨type, length, -, -, -, rows, -⟩ := flipped image made
  exact ⟨regular, image, made, type, length, rows⟩

end Image
end AssetRecords
