import AssetRecords.Bytes
/-!
# Chunks

A PNG file is a signature and a row of chunks.  A chunk is its length, its type of four letters, its data and a checksum
of type and data; every number stands with its most significant byte first.
-/
namespace AssetRecords
namespace Png

def signature : Bytes := [0x89, 0x50, 0x4e, 0x47, 0x0d, 0x0a, 0x1a, 0x0a]

/-- The number whose bytes these are, the most significant one first. -/
def ofBigEndian (bytes : Bytes) : Nat := bytes.foldl (fun n b => n * 256 + b.toNat) 0

def crcShift (crc : UInt32) : UInt32 :=
  if crc &&& 1 = 1 then (0xedb88320 : UInt32) ^^^ (crc >>> 1) else crc >>> 1

def crcStep (crc : UInt32) (b : UInt8) : UInt32 :=
  (List.range 8).foldl (fun crc _ => crcShift crc) (crc ^^^ b.toUInt32)

def crc (bytes : Bytes) : UInt32 := bytes.foldl crcStep 0xffffffff ^^^ 0xffffffff

/-- How a chunk begins: the number of bytes of its data, and its type. -/
structure ChunkHead where
  length : Nat
  type : String
  deriving DecidableEq, Repr

def ChunkHead.read? (bytes : Bytes) : Option ChunkHead :=
  let typeBytes := (bytes.drop 4).take 4
  if typeBytes.length < 4 then none
  else some ⟨ofBigEndian (bytes.take 4), String.ofList (typeBytes.map fun b => Char.ofNat b.toNat)⟩

/-- A chunk by its type, and whether the checksum that stands behind it is right. -/
structure Chunk where
  type : String
  data : Bytes
  checksumHolds : Bool
  deriving DecidableEq, Repr

namespace Chunk

/-- No decoder can do without a chunk of this type: in its first letter the bit that tells small letters from capitals
is not set. -/
def isCritical (c : Chunk) : Bool := c.type.toList.head?.any fun letter => !letter.toNat.testBit 5

/-- The chunk that bytes begin with, and what follows it.  A critical chunk has the right checksum. -/
def read? (bytes : Bytes) : Option (Chunk × Bytes) :=
  match ChunkHead.read? bytes with
  | none => none
  | some ⟨length, type⟩ =>
    let rest := bytes.drop 8
    let data := rest.take length
    let checksum := (rest.drop length).take 4
    if checksum.length < 4 then none
    else
      let chunk : Chunk := ⟨type, data, (crc ((bytes.drop 4).take 4 ++ data)).toNat = ofBigEndian checksum⟩
      if chunk.isCritical && !chunk.checksumHolds then none else some (chunk, rest.drop (length + 4))

end Chunk
end Png
end AssetRecords
