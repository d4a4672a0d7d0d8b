import AssetRecords.Bytes
/-!
# UTF-8

Texts are stored as UTF-8.  Reading refuses whatever writing would not produce: overlong forms, surrogates and numbers
past the last code point, at the first byte that no character can have there.
-/
namespace AssetRecords
namespace Utf8

/-- Where bytes stop being UTF-8: the length of the part before, and how many bytes no character begins with; none when
the bytes end within a character. -/
structure Fault where
  validUpTo : Nat
  length : Option Nat
  deriving DecidableEq, Repr

def Fault.message (f : Fault) : String :=
  match f.length with
  | some n => s!"invalid utf-8 sequence of {n} bytes from index {f.validUpTo}"
  | none => s!"incomplete utf-8 byte sequence from index {f.validUpTo}"

def encode (cs : List Char) : Bytes := cs.flatMap String.utf8EncodeChar

def size (cs : List Char) : Nat := cs.foldr (fun c bytes => c.utf8Size + bytes) 0

/-- The bits that a first byte gives to its character, and the ranges of the bytes that must follow it. -/
def leading? (b : UInt8) : Option (Nat × List (UInt8 × UInt8)) :=
  let any : UInt8 × UInt8 := (0x80, 0xbf)
  if b < 0x80 then some (b.toNat, [])
  else if b < 0xc2 then none
  else if b < 0xe0 then some (b.toNat - 0xc0, [any])
  else if b = 0xe0 then some (0, [(0xa0, 0xbf), any])
  else if b = 0xed then some (0xd, [(0x80, 0x9f), any])
  else if b < 0xf0 then some (b.toNat - 0xe0, [any, any])
  else if b = 0xf0 then some (0, [(0x90, 0xbf), any, any])
  else if b < 0xf4 then some (b.toNat - 0xf0, [any, any, any])
  else if b = 0xf4 then some (4, [(0x80, 0x8f), any, any])
  else none

/-- The characters of bytes, read from the middle of a character: it began at `start`, `seen` of its bytes gave the
bits `value`, and the bytes of `ranges` are to follow. -/
def decodeFrom (start seen value : Nat) : List (UInt8 × UInt8) → Bytes → Except Fault (List Char)
  | [], [] => .ok []
  | _ :: _, [] => .error ⟨start, none⟩
  | [], b :: rest =>
    match leading? b with
    | none => .error ⟨start, some 1⟩
    | some (bits, []) => (Char.ofNat bits :: ·) <$> decodeFrom (start + 1) 0 0 [] rest
    | some (bits, ranges) => decodeFrom start 1 bits ranges rest
  | range :: ranges, b :: rest =>
    if range.1 ≤ b && b ≤ range.2 then
      let bits := value * 64 + (b.toNat - 0x80)
      match ranges with
      | [] => (Char.ofNat bits :: ·) <$> decodeFrom (start + seen + 1) 0 0 [] rest
      | _ => decodeFrom start (seen + 1) bits ranges rest
    else .error ⟨start, some seen⟩

def decode (bytes : Bytes) : Except Fault (List Char) := decodeFrom 0 0 0 [] bytes

end Utf8
end AssetRecords
