import AssetRecords.Proofs.DebugText.Following
import AssetRecords.Proofs.DebugText.Machine
import AssetRecords.Proofs.Escapes
/-!
# Boundaries — the bytes of a text at a position between characters

A piece can be cut out of a text exactly between two positions where characters end and begin (`slice?_eq_some_iff`).
At such a position stands the first byte of what is left; that byte tells an ASCII character from all others
(`lead_eq_iff`), and none of the bytes of another character is taken for one (`ne_of_mem_encodeChar`).
-/
namespace AssetRecords

/-- The first byte of a character. -/
def lead (c : Char) : UInt8 := (String.utf8EncodeChar c).headD 0

section Bytes

variable {c w : Char}

theorem exists_encodeChar_eq (c : Char) : ∃ tail, String.utf8EncodeChar c = lead c :: tail := by
  unfold lead
  cases h : String.utf8EncodeChar c with
  | nil =>
    have size := String.length_utf8EncodeChar c
    rw [h] at size
    exact absurd size.symm (Nat.ne_of_gt c.utf8Size_pos)
  | cons b tail => exact ⟨tail, rfl⟩

theorem lead_mem (c : Char) : lead c ∈ String.utf8EncodeChar c := by
  obtain ⟨tail, bytes⟩ := exists_encodeChar_eq c
  rw [bytes]
  exact List.mem_cons_self

theorem utf8Size_ascii (ascii : w.toNat < 0x80) : w.utf8Size = 1 := by
  rw [← String.length_utf8EncodeChar, Utf8.encodeChar_of_lt ascii, List.length_singleton]

/-- No byte of another character is that of an ASCII character. -/
theorem ne_of_mem_encodeChar (ascii : w.toNat < 0x80) (ne : c ≠ w) :
    ∀ b ∈ String.utf8EncodeChar c, b ≠ w.toUInt8 := by
  rintro b hb rfl
  have number : w.toUInt8.toNat = w.toNat := Utf8.toNat_ofNat (Nat.lt_trans ascii (by decide))
  by_cases small : c.toNat < 0x80
  · rw [Utf8.encodeChar_of_lt small, List.mem_singleton] at hb
    have number' : (UInt8.ofNat c.toNat).toNat = c.toNat := Utf8.toNat_ofNat (Nat.lt_trans small (by decide))
    refine ne (Char.toNat_inj.1 ?_)
    rw [← number, ← number', hb]
  · have large := Utf8.le_of_mem_encodeChar (Nat.le_of_not_lt small) hb
    omega

theorem lead_eq_iff (ascii : w.toNat < 0x80) : lead c = w.toUInt8 ↔ c = w := by
  constructor
  · intro same
    by_contra ne
    exact ne_of_mem_encodeChar ascii ne _ (lead_mem c) same
  · rintro rfl
    rw [lead, Utf8.encodeChar_of_lt ascii]
    rfl

theorem map_lead_eq_iff {found : Option Char} (ascii : w.toNat < 0x80) :
    found.map lead = some w.toUInt8 ↔ found = some w := by
  cases found with
  | none => exact ⟨nofun, nofun⟩
  | some c => rw [Option.map_some, Option.some.injEq, Option.some.injEq, lead_eq_iff ascii]

end Bytes

namespace Utf8

theorem length_le_size : ∀ cs : List Char, cs.length ≤ size cs
  | [] => Nat.le_refl _
  | c :: cs => by
    have pos := c.utf8Size_pos
    have rest := length_le_size cs
    have cons : size (c :: cs) = c.utf8Size + size cs := rfl
    rw [List.length_cons, cons]
    omega

/-- Where one character ends there is the first byte of the next one. -/
theorem getElem?_encode (before rest : List Char) : (encode (before ++ rest))[size before]? = rest.head?.map lead := by
  rw [encode_append, ← length_encode, List.getElem?_append_right (Nat.le_refl _), Nat.sub_self]
  cases rest with
  | nil => rfl
  | cons c rest =>
    obtain ⟨tail, bytes⟩ := exists_encodeChar_eq c
    rw [encode_cons, bytes]
    rfl

end Utf8

theorem IsBoundary.le {text : List Char} {offset : Nat} (h : IsBoundary text offset) :
    offset ≤ (Utf8.encode text).length := by
  obtain ⟨before, after, rfl, rfl⟩ := h
  rw [Utf8.encode_append, List.length_append]
  exact Nat.le_add_right _ _

namespace DebugText

theorem dropBytes_zero (cs : List Char) : dropBytes 0 cs = some cs := by cases cs <;> rfl

theorem dropBytes_cons (count : Nat) (c : Char) (rest : List Char) : dropBytes (count + 1) (c :: rest) =
    if c.utf8Size ≤ count + 1 then dropBytes (count + 1 - c.utf8Size) rest else none := rfl

theorem dropBytes_append (rest : List Char) :
    ∀ front : List Char, dropBytes (Utf8.size front) (front ++ rest) = some rest
  | [] => dropBytes_zero rest
  | c :: front => by
    have size : Utf8.size (c :: front) = c.utf8Size + Utf8.size front := rfl
    obtain ⟨count, pos⟩ := Nat.exists_eq_add_one_of_ne_zero (Nat.ne_of_gt c.utf8Size_pos)
    rw [size, pos, Nat.add_right_comm, List.cons_append, dropBytes_cons, pos,
      if_pos (Nat.add_le_add_right (Nat.le_add_right _ _) 1), Nat.add_right_comm, Nat.add_sub_cancel_left]
    exact dropBytes_append rest front

theorem dropBytes_eq_some : ∀ {count : Nat} {cs rest : List Char}, dropBytes count cs = some rest →
    ∃ front, cs = front ++ rest ∧ Utf8.size front = count
  | 0, cs, rest, h => by
    rw [dropBytes_zero] at h
    cases h
    exact ⟨[], rfl, rfl⟩
  | count + 1, [], rest, h => by cases h
  | count + 1, c :: cs, rest, h => by
    rw [dropBytes_cons] at h
    split at h
    case isTrue fits =>
      obtain ⟨front, rfl, size⟩ := dropBytes_eq_some h
      refine ⟨c :: front, rfl, ?_⟩
      show c.utf8Size + Utf8.size front = _
      omega
    case isFalse => cases h

/-- **A piece is cut out between characters**, and nowhere else. -/
theorem slice?_eq_some_iff {text piece : List Char} {start stop : Nat} : slice? text start stop = some piece ↔
    ∃ before after, text = before ++ (piece ++ after) ∧ start = Utf8.size before ∧
      stop = Utf8.size before + Utf8.size piece := by
  unfold slice?
  constructor
  · intro h
    split at h
    case isFalse => cases h
    case isTrue le =>
      obtain ⟨rest, dropped, taken⟩ := Option.bind_eq_some_iff.1 h
      obtain ⟨before, rfl, rfl⟩ := dropBytes_eq_some dropped
      obtain ⟨size, after, rfl⟩ := takeBytes_eq_some taken
      exact ⟨before, after, rfl, rfl, by omega⟩
  · rintro ⟨before, after, rfl, rfl, rfl⟩
    rw [if_pos (Nat.le_add_right _ _), dropBytes_append, Option.bind_some, Nat.add_sub_cancel_left]
    exact takeBytes_append after piece

theorem byteChar_lead (c : Char) : byteChar (lead c) = firstByte c := by
  obtain ⟨tail, bytes⟩ := exists_encodeChar_eq c
  unfold firstByte
  rw [bytes]
  rfl

theorem unescape?_large {c : Char} (large : 0x80 ≤ c.toNat) : Quoted.unescape? c = none := by
  unfold Quoted.unescape?
  split
  case h_9 => rfl
  all_goals exact absurd large (by decide)

/-- An escape of two characters is known by the first byte of the second one. -/
theorem unescape?_lead (c : Char) : Quoted.unescape? (byteChar (lead c)) = Quoted.unescape? c := by
  by_cases ascii : c.toNat < 0x80
  · have same : byteChar (lead c) = c := by
      rw [(lead_eq_iff ascii).2 rfl]
      show Char.ofNat (UInt8.ofNat c.toNat).toNat = c
      rw [Utf8.toNat_ofNat (Nat.lt_trans ascii (by decide)), Char.ofNat_toNat]
    rw [same]
  · have large := Nat.le_of_not_lt ascii
    have byte := Utf8.le_of_mem_encodeChar large (lead_mem c)
    have valid : (lead c).toNat.isValidChar := .inl (Nat.lt_trans (lead c).toNat_lt (by decide))
    have number : (byteChar (lead c)).toNat = (lead c).toNat := by
      rw [byteChar, Char.ofNat, dif_pos valid]
      rfl
    rw [unescape?_large large, unescape?_large (number ▸ byte)]

end DebugText
end AssetRecords
