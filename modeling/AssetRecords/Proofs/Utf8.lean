import AssetRecords.Text.Utf8
/-!
# Utf8 — a text and its bytes

Reading the bytes of a text gives the text (`decode_encode`), and no other bytes do (`encode_of_decode`).  Both rest on
`Spells`, the four ways to spread the number of a character over bytes: each character is written in one of them
(`spells_encodeChar`), and the reader takes exactly these (`decodeFrom_of_spells`, `exists_spells_of_decodeFrom`).
-/
namespace AssetRecords
namespace Utf8

/-- A byte that follows the first one of a character. -/
def IsTail (b : UInt8) : Prop := 0x80 ≤ b.toNat ∧ b.toNat ≤ 0xbf

theorem leading?_one {b : UInt8} (h : b.toNat < 0x80) : leading? b = some (b.toNat, []) := by
  rw [leading?, if_pos (UInt8.lt_iff_toNat_lt.2 h)]

theorem leading?_two {b : UInt8} (h : 0xc2 ≤ b.toNat) (h' : b.toNat < 0xe0) :
    leading? b = some (b.toNat - 0xc0, [(0x80, 0xbf)]) := by
  simp only [leading?, UInt8.lt_iff_toNat_lt, UInt8.reduceToNat]
  rw [if_neg (by omega), if_neg (by omega), if_pos h']

/-- Of the bytes that follow a first byte only the first one may be kept to a smaller range. -/
theorem leading?_three {b : UInt8} (h : 0xe0 ≤ b.toNat) (h' : b.toNat < 0xf0) :
    leading? b = some (b.toNat - 0xe0,
      [(if b.toNat = 0xe0 then 0xa0 else 0x80, if b.toNat = 0xed then 0x9f else 0xbf), (0x80, 0xbf)]) := by
  simp only [leading?, UInt8.lt_iff_toNat_lt, ← UInt8.toNat_inj, UInt8.reduceToNat]
  rw [if_neg (by omega), if_neg (by omega), if_neg (by omega)]
  by_cases first : b.toNat = 0xe0
  · simp [first]
  · by_cases surrogates : b.toNat = 0xed
    · simp [surrogates]
    · simp [first, surrogates, h']

theorem leading?_four {b : UInt8} (h : 0xf0 ≤ b.toNat) (h' : b.toNat < 0xf5) :
    leading? b = some (b.toNat - 0xf0,
      [(if b.toNat = 0xf0 then 0x90 else 0x80, if b.toNat = 0xf4 then 0x8f else 0xbf), (0x80, 0xbf), (0x80, 0xbf)]) := by
  simp only [leading?, UInt8.lt_iff_toNat_lt, ← UInt8.toNat_inj, UInt8.reduceToNat]
  rw [if_neg (by omega), if_neg (by omega), if_neg (by omega), if_neg (by omega), if_neg (by omega), if_neg (by omega)]
  by_cases first : b.toNat = 0xf0
  · simp [first]
  · by_cases last : b.toNat = 0xf4
    · simp [last]
    · have : b.toNat < 0xf4 := by omega
      simp [first, last, this]

theorem leading?_of_ne_none {b : UInt8} (h : leading? b ≠ none) :
    b.toNat < 0x80 ∨ 0xc2 ≤ b.toNat ∧ b.toNat < 0xf5 := by
  simp only [leading?, UInt8.lt_iff_toNat_lt, ← UInt8.toNat_inj, UInt8.reduceToNat] at h
  by_cases low : b.toNat < 0x80
  · exact .inl low
  · refine .inr ⟨?_, ?_⟩
    · refine Nat.le_of_not_lt fun small => h ?_
      rw [if_neg low, if_pos small]
    · refine Nat.lt_of_not_le fun large => h ?_
      rw [if_neg low, if_neg (by omega), if_neg (by omega), if_neg (by omega), if_neg (by omega), if_neg (by omega),
        if_neg (by omega), if_neg (by omega), if_neg (by omega)]

section Decoding

variable {start seen value : Nat} {range next : UInt8 × UInt8} {ranges : List (UInt8 × UInt8)} {b : UInt8}
  {rest : Bytes} {cs : List Char}

theorem decodeFrom_lead_one (h : b.toNat < 0x80) :
    decodeFrom start 0 0 [] (b :: rest) = (Char.ofNat b.toNat :: ·) <$> decodeFrom (start + 1) 0 0 [] rest := by
  rw [decodeFrom, leading?_one h]

theorem decodeFrom_lead {bits : Nat} (h : leading? b = some (bits, next :: ranges)) :
    decodeFrom start 0 0 [] (b :: rest) = decodeFrom start 1 bits (next :: ranges) rest := by
  rw [decodeFrom, h]

/-- A byte in the middle of a character is one of its range. -/
theorem mem_range_of_decodeFrom {bytes : Bytes} (h : decodeFrom start seen value (range :: ranges) bytes = .ok cs) :
    ∃ b rest, bytes = b :: rest ∧ range.1.toNat ≤ b.toNat ∧ b.toNat ≤ range.2.toNat := by
  cases bytes with
  | nil => simp [decodeFrom] at h
  | cons b rest =>
    rw [decodeFrom] at h
    split at h
    · rename_i inside
      simp only [Bool.and_eq_true, decide_eq_true_eq, UInt8.le_iff_toNat_le] at inside
      exact ⟨b, rest, rfl, inside⟩
    · cases h

theorem decodeFrom_middle (low : range.1.toNat ≤ b.toNat) (high : b.toNat ≤ range.2.toNat) :
    decodeFrom start seen value (range :: next :: ranges) (b :: rest) =
      decodeFrom start (seen + 1) (value * 64 + (b.toNat - 0x80)) (next :: ranges) rest := by
  rw [decodeFrom, if_pos]
  simpa [UInt8.le_iff_toNat_le] using ⟨low, high⟩

theorem decodeFrom_last (low : range.1.toNat ≤ b.toNat) (high : b.toNat ≤ range.2.toNat) :
    decodeFrom start seen value [range] (b :: rest) =
      (Char.ofNat (value * 64 + (b.toNat - 0x80)) :: ·) <$> decodeFrom (start + seen + 1) 0 0 [] rest := by
  rw [decodeFrom, if_pos]
  simpa [UInt8.le_iff_toNat_le] using ⟨low, high⟩

end Decoding


/-- The range of the second byte is that of every other one, but for one first byte at either end. -/
theorem le_second {a b low : UInt8} {n : Nat} (tail : IsTail b) (h : a.toNat = n → low.toNat ≤ b.toNat) :
    (if a.toNat = n then low else 0x80 : UInt8).toNat ≤ b.toNat := by
  split
  · exact h ‹_›
  · exact tail.1

theorem second_le {a b high : UInt8} {n : Nat} (tail : IsTail b) (h : a.toNat = n → b.toNat ≤ high.toNat) :
    b.toNat ≤ (if a.toNat = n then high else 0xbf : UInt8).toNat := by
  split
  · exact h ‹_›
  · exact tail.2

theorem isTail_of_second {a b low high : UInt8} {n m : Nat}
    (lower : (if a.toNat = n then low else 0x80 : UInt8).toNat ≤ b.toNat)
    (upper : b.toNat ≤ (if a.toNat = m then high else 0xbf : UInt8).toNat) (hl : 0x80 ≤ low.toNat)
    (hh : high.toNat ≤ 0xbf) :
    IsTail b ∧ (a.toNat = n → low.toNat ≤ b.toNat) ∧ (a.toNat = m → b.toNat ≤ high.toNat) := by
  refine ⟨⟨?_, ?_⟩, fun h => ?_, fun h => ?_⟩
  · split at lower
    · exact Nat.le_trans hl lower
    · exact lower
  · split at upper
    · exact Nat.le_trans upper hh
    · exact upper
  · rwa [if_pos h] at lower
  · rwa [if_pos h] at upper

/-- The bytes of a character, with the number that their bits make up. -/
inductive Spells (n : Nat) : Bytes → Prop where
  | one {a : UInt8} : a.toNat < 0x80 → n = a.toNat → Spells n [a]
  | two {a b : UInt8} : 0xc2 ≤ a.toNat → a.toNat < 0xe0 → IsTail b →
    n = (a.toNat - 0xc0) * 64 + (b.toNat - 0x80) → Spells n [a, b]
  | three {a b c : UInt8} : 0xe0 ≤ a.toNat → a.toNat < 0xf0 → IsTail b → IsTail c →
    (a.toNat = 0xe0 → 0xa0 ≤ b.toNat) → (a.toNat = 0xed → b.toNat ≤ 0x9f) →
    n = ((a.toNat - 0xe0) * 64 + (b.toNat - 0x80)) * 64 + (c.toNat - 0x80) → Spells n [a, b, c]
  | four {a b c d : UInt8} : 0xf0 ≤ a.toNat → a.toNat < 0xf5 → IsTail b → IsTail c → IsTail d →
    (a.toNat = 0xf0 → 0x90 ≤ b.toNat) → (a.toNat = 0xf4 → b.toNat ≤ 0x8f) →
    n = (((a.toNat - 0xf0) * 64 + (b.toNat - 0x80)) * 64 + (c.toNat - 0x80)) * 64 + (d.toNat - 0x80) →
    Spells n [a, b, c, d]

theorem toNat_ofNat {k : Nat} (h : k < 256) : (UInt8.ofNat k).toNat = k := by
  rw [UInt8.toNat_ofNat', Nat.mod_eq_of_lt h]

theorem spells_encodeChar (c : Char) : Spells c.toNat (String.utf8EncodeChar c) := by
  have valid : c.toNat < 0xd800 ∨ 0xdfff < c.toNat ∧ c.toNat < 0x110000 := c.valid
  have number : c.val.toNat = c.toNat := rfl
  unfold String.utf8EncodeChar
  simp only [number]
  generalize c.toNat = n at *
  have last := toNat_ofNat (k := n % 0x40 + 0x80) (by omega)
  have mid := toNat_ofNat (k := n / 64 % 0x40 + 0x80) (by omega)
  have upper := toNat_ofNat (k := n / 4096 % 0x40 + 0x80) (by omega)
  split
  · have first := toNat_ofNat (k := n) (by omega)
    exact .one (by omega) (by omega)
  split
  · have first := toNat_ofNat (k := n / 64 % 0x20 + 0xc0) (by omega)
    exact .two (by omega) (by omega) ⟨by omega, by omega⟩ (by omega)
  split
  · have first := toNat_ofNat (k := n / 4096 % 0x10 + 0xe0) (by omega)
    exact .three (by omega) (by omega) ⟨by omega, by omega⟩ ⟨by omega, by omega⟩ (by omega) (by omega) (by omega)
  · have first := toNat_ofNat (k := n / 262144 % 0x08 + 0xf0) (by omega)
    exact .four (by omega) (by omega) ⟨by omega, by omega⟩ ⟨by omega, by omega⟩ ⟨by omega, by omega⟩ (by omega)
      (by omega) (by omega)

theorem encodeChar_of_lt {c : Char} (h : c.toNat < 0x80) : String.utf8EncodeChar c = [UInt8.ofNat c.toNat] :=
  if_pos (Nat.le_of_lt_succ h)

theorem le_of_mem_encodeChar {c : Char} (h : 0x80 ≤ c.toNat) {b : UInt8} (hb : b ∈ String.utf8EncodeChar c) :
    0x80 ≤ b.toNat := by
  have spells := spells_encodeChar c
  generalize String.utf8EncodeChar c = bytes at hb spells
  cases spells with
  | one low number => omega
  | two lead _ tail =>
    simp only [List.mem_cons, List.not_mem_nil, or_false] at hb
    rcases hb with rfl | rfl
    · omega
    · exact tail.1
  | three lead _ tail tail' =>
    simp only [List.mem_cons, List.not_mem_nil, or_false] at hb
    rcases hb with rfl | rfl | rfl
    · omega
    · exact tail.1
    · exact tail'.1
  | four lead _ tail tail' tail'' =>
    simp only [List.mem_cons, List.not_mem_nil, or_false] at hb
    rcases hb with rfl | rfl | rfl | rfl
    · omega
    · exact tail.1
    · exact tail'.1
    · exact tail''.1

/-- No other bytes spell the same number. -/
theorem encodeChar_of_spells {n : Nat} {bytes : Bytes} (h : Spells n bytes) :
    String.utf8EncodeChar (Char.ofNat n) = bytes := by
  have number (h : n < 0xd800 ∨ 0xdfff < n ∧ n < 0x110000) : (Char.ofNat n).val.toNat = n := by
    rw [Char.ofNat, dif_pos h]
    rfl
  have byte {k : Nat} {x : UInt8} (h : k = x.toNat) : UInt8.ofNat k = x := by rw [h, UInt8.ofNat_toNat]
  unfold String.utf8EncodeChar
  cases h with
  | one ha hn =>
    rw [number (by omega), if_pos (by omega), byte hn]
  | @two a b ha ha' hb hn =>
    unfold IsTail at hb
    rw [number (by omega), if_neg (by omega), if_pos (by omega), byte (x := a) (by omega), byte (x := b) (by omega)]
  | @three a b c ha ha' hb hc h0 hd hn =>
    unfold IsTail at hb hc
    rw [number (by omega), if_neg (by omega), if_neg (by omega), if_pos (by omega), byte (x := a) (by omega),
      byte (x := b) (by omega), byte (x := c) (by omega)]
  | @four a b c d ha ha' hb hc hd h0 h4 hn =>
    unfold IsTail at hb hc hd
    rw [number (by omega), if_neg (by omega), if_neg (by omega), if_neg (by omega), byte (x := a) (by omega),
      byte (x := b) (by omega), byte (x := c) (by omega), byte (x := d) (by omega)]

theorem decodeFrom_of_spells {n : Nat} {bytes : Bytes} (h : Spells n bytes) (start : Nat) (rest : Bytes) :
    decodeFrom start 0 0 [] (bytes ++ rest) = (Char.ofNat n :: ·) <$> decodeFrom (start + bytes.length) 0 0 [] rest := by
  cases h with
  | one ha hn =>
    rw [List.singleton_append, decodeFrom_lead_one ha, hn]
    rfl
  | two ha ha' hb hn =>
    rw [List.cons_append, List.singleton_append, decodeFrom_lead (leading?_two ha ha'), decodeFrom_last, ← hn]
    · rfl
    · exact hb.1
    · exact hb.2
  | three ha ha' hb hc lower upper hn =>
    rw [List.cons_append, List.cons_append, List.singleton_append, decodeFrom_lead (leading?_three ha ha'),
      decodeFrom_middle (le_second hb lower) (second_le hb upper), decodeFrom_last, ← hn]
    · rfl
    · exact hc.1
    · exact hc.2
  | four ha ha' hb hc hd lower upper hn =>
    rw [List.cons_append, List.cons_append, List.cons_append, List.singleton_append,
      decodeFrom_lead (leading?_four ha ha'), decodeFrom_middle (le_second hb lower) (second_le hb upper),
      decodeFrom_middle, decodeFrom_last, ← hn]
    · rfl
    · exact hd.1
    · exact hd.2
    · exact hc.1
    · exact hc.2

/-- What is read starts with the bytes of a character. -/
theorem exists_spells_of_decodeFrom {start : Nat} {bytes : Bytes} {cs : List Char}
    (h : decodeFrom start 0 0 [] bytes = .ok cs) (hne : bytes ≠ []) :
    ∃ n first rest, bytes = first ++ rest ∧ Spells n first := by
  obtain ⟨a, rest, rfl⟩ := List.exists_cons_of_ne_nil hne
  have lead : leading? a ≠ none := fun none => by rw [decodeFrom, none] at h; cases h
  rcases leading?_of_ne_none lead with ha | ⟨ha, ha'⟩
  · exact ⟨_, [a], rest, rfl, .one ha rfl⟩
  by_cases two : a.toNat < 0xe0
  · rw [decodeFrom_lead (leading?_two ha two)] at h
    obtain ⟨b, rest, rfl, hb⟩ := mem_range_of_decodeFrom h
    exact ⟨_, [a, b], rest, rfl, .two ha two hb rfl⟩
  have ha : 0xe0 ≤ a.toNat := by omega
  by_cases three : a.toNat < 0xf0
  · rw [decodeFrom_lead (leading?_three ha three)] at h
    obtain ⟨b, rest, rfl, lower, upper⟩ := mem_range_of_decodeFrom h
    rw [decodeFrom_middle lower upper] at h
    obtain ⟨c, rest, rfl, hc⟩ := mem_range_of_decodeFrom h
    obtain ⟨hb, lower, upper⟩ := isTail_of_second lower upper (by decide) (by decide)
    exact ⟨_, [a, b, c], rest, rfl, .three ha three hb hc lower upper rfl⟩
  · have ha : 0xf0 ≤ a.toNat := by omega
    rw [decodeFrom_lead (leading?_four ha ha')] at h
    obtain ⟨b, rest, rfl, lower, upper⟩ := mem_range_of_decodeFrom h
    rw [decodeFrom_middle lower upper] at h
    obtain ⟨c, rest, rfl, hc⟩ := mem_range_of_decodeFrom h
    rw [decodeFrom_middle hc.1 hc.2] at h
    obtain ⟨d, rest, rfl, hd⟩ := mem_range_of_decodeFrom h
    obtain ⟨hb, lower, upper⟩ := isTail_of_second lower upper (by decide) (by decide)
    exact ⟨_, [a, b, c, d], rest, rfl, .four ha ha' hb hc hd lower upper rfl⟩

theorem encode_cons (c : Char) (cs : List Char) : encode (c :: cs) = String.utf8EncodeChar c ++ encode cs := rfl

theorem encode_append (front back : List Char) : encode (front ++ back) = encode front ++ encode back :=
  List.flatMap_append

theorem length_encode (cs : List Char) : (encode cs).length = size cs := by
  induction cs with
  | nil => rfl
  | cons c cs ih =>
    rw [encode_cons, List.length_append, String.length_utf8EncodeChar, ih]
    rfl

theorem size_append (front back : List Char) : size (front ++ back) = size front + size back := by
  rw [← length_encode, encode_append, List.length_append, length_encode, length_encode]

theorem decodeFrom_encode : ∀ (start : Nat) (cs : List Char), decodeFrom start 0 0 [] (encode cs) = .ok cs
  | start, [] => by rw [encode, List.flatMap_nil, decodeFrom]
  | start, c :: cs => by
    rw [encode_cons, decodeFrom_of_spells (spells_encodeChar c), decodeFrom_encode _ cs, Char.ofNat_toNat]
    rfl

/-- **A text is read back from its bytes.** -/
theorem decode_encode (cs : List Char) : decode (encode cs) = .ok cs := decodeFrom_encode 0 cs

theorem encode_of_decodeFrom : ∀ (cs : List Char) (start : Nat) (bytes : Bytes),
    decodeFrom start 0 0 [] bytes = .ok cs → encode cs = bytes
  | cs, start, bytes, h => by
    by_cases hne : bytes = []
    · subst hne
      rw [decodeFrom] at h
      cases h
      rfl
    · obtain ⟨n, first, rest, rfl, spells⟩ := exists_spells_of_decodeFrom h hne
      rw [decodeFrom_of_spells spells] at h
      cases hrest : decodeFrom (start + first.length) 0 0 [] rest with
      | error e => rw [hrest] at h; cases h
      | ok cs' =>
        rw [hrest] at h
        cases h
        rw [encode_cons, encodeChar_of_spells spells, encode_of_decodeFrom cs' _ rest hrest]

/-- **Only the bytes of a text are read as that text.** -/
theorem encode_of_decode {cs : List Char} {bytes : Bytes} (h : decode bytes = .ok cs) : encode cs = bytes :=
  encode_of_decodeFrom cs 0 bytes h

end Utf8
end AssetRecords
