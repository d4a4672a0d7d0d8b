/-!
# Bytes of a number

Every number that is stored in bytes is stored with its least significant byte first.
-/
namespace AssetRecords

abbrev Bytes := List UInt8

/-- The `size` low bytes of a number, the least significant one first. -/
def littleEndian : (size : Nat) → Nat → Bytes
  | 0, _ => []
  | size + 1, n => UInt8.ofNat n :: littleEndian size (n / 256)

/-- The number whose bytes these are, the least significant one first. -/
def ofLittleEndian : Bytes → Nat
  | [] => 0
  | b :: rest => b.toNat + 256 * ofLittleEndian rest

@[simp] theorem length_littleEndian : ∀ size n : Nat, (littleEndian size n).length = size
  | 0, _ => rfl
  | size + 1, n => congrArg (· + 1) (length_littleEndian size (n / 256))

theorem ofLittleEndian_littleEndian : ∀ size n : Nat, ofLittleEndian (littleEndian size n) = n % Nat.pow 256 size
  | 0, n => (Nat.mod_one n).symm
  | size + 1, n => by
    have h : Nat.pow 256 (size + 1) = 256 * Nat.pow 256 size := Nat.mul_comm _ _
    rw [littleEndian, ofLittleEndian, ofLittleEndian_littleEndian size (n / 256), h, Nat.mod_mul, UInt8.toNat_ofNat']

theorem ofLittleEndian_lt : ∀ bytes : Bytes, ofLittleEndian bytes < Nat.pow 256 bytes.length
  | [] => Nat.one_pos
  | b :: rest => by
    have hb : b.toNat < 256 := b.toNat_lt
    have hr := ofLittleEndian_lt rest
    have h : Nat.pow 256 (rest.length + 1) = 256 * Nat.pow 256 rest.length := Nat.mul_comm _ _
    rw [ofLittleEndian, List.length_cons, h]
    omega

/-- Bytes are written back from the number that they hold. -/
theorem littleEndian_ofLittleEndian : ∀ bytes : Bytes, littleEndian bytes.length (ofLittleEndian bytes) = bytes
  | [] => rfl
  | b :: rest => by
    have hb : b.toNat < 256 := b.toNat_lt
    have low : UInt8.ofNat (b.toNat + 256 * ofLittleEndian rest) = b := by
      apply UInt8.toNat_inj.1
      rw [UInt8.toNat_ofNat']
      omega
    have high : (b.toNat + 256 * ofLittleEndian rest) / 256 = ofLittleEndian rest := by omega
    rw [ofLittleEndian, List.length_cons, littleEndian, low, high, littleEndian_ofLittleEndian rest]

end AssetRecords
