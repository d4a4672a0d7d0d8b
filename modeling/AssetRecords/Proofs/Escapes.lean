import AssetRecords.Proofs.DebugText.Following
import AssetRecords.Proofs.Json.Documents
/-!
# Escapes — one way to write a string and two to read it

Strings are quoted byte by byte: what needs no escape is kept as a slice of the bytes from one offset to another.
`Quoted.body` cuts the same slices out of the characters, so that each slice begins and ends between two characters
(`cuts_scan`).  The text is read back by the scanner of debug texts and by the reader of JSON, and both stop behind its
closing quote (`escapes_read_back`).
-/
namespace AssetRecords
namespace Quoted

/-!
## Slices of the bytes
-/

/-- The escape of a byte, if it needs one. -/
def byteEscape? (b : UInt8) : Option (List Char) :=
  match b with
  | 0x22 => some ['\\', '"']
  | 0x5c => some ['\\', '\\']
  | 0x0a => some ['\\', 'n']
  | 0x0d => some ['\\', 'r']
  | 0x09 => some ['\\', 't']
  | 0x08 => some ['\\', 'b']
  | 0x0c => some ['\\', 'f']
  | _ =>
    if b ≤ 0x1f ∨ b = 0x7f then
      some ['\\', 'u', '0', '0', Nat.digitChar (b.toNat / 16), Nat.digitChar (b.toNat % 16)]
    else none

/-- What is handed on: the bytes from one offset to another, or a text of its own. -/
inductive Slice where
  | between (start stop : Nat)
  | text (cs : List Char)
  deriving DecidableEq

def Slice.bytes (whole : Bytes) : Slice → Bytes
  | between start stop => (whole.drop start).take (stop - start)
  | text cs => Utf8.encode cs

/-- The slices of the bytes from an offset on, the last of which was cut at `start`. -/
def scan (start offset : Nat) : Bytes → List Slice
  | [] => [.between start offset]
  | b :: rest =>
    match byteEscape? b with
    | some escape => .between start offset :: .text escape :: scan (offset + 1) (offset + 1) rest
    | none => scan start (offset + 1) rest

/-- The slices of a quoted string, its quotes among them. -/
def slices (bytes : Bytes) : List Slice := .text ['"'] :: scan 0 0 bytes ++ [.text ['"']]

theorem byteEscape?_of_ascii {c : Char} (h : c.toNat < 0x80) : byteEscape? (UInt8.ofNat c.toNat) = escape? c := by
  have each : ∀ n < 0x80, byteEscape? (UInt8.ofNat n) = escape? (Char.ofNat n) := by decide
  rw [each c.toNat h, Char.ofNat_toNat]

theorem byteEscape?_of_le {b : UInt8} (h : 0x80 ≤ b.toNat) : byteEscape? b = none := by
  unfold byteEscape?
  split
  case h_8 =>
    refine if_neg ?_
    simp only [UInt8.le_iff_toNat_le, ← UInt8.toNat_inj, UInt8.reduceToNat]
    omega
  all_goals exact absurd h (by decide)

theorem escape?_of_le {c : Char} (h : 0x80 ≤ c.toNat) : escape? c = none := by
  unfold escape?
  split
  case h_8 => exact if_neg (by omega)
  all_goals exact absurd h (by decide)

theorem scan_plain (start : Nat) (rest : Bytes) : ∀ {bytes : Bytes}, (∀ b ∈ bytes, byteEscape? b = none) →
    ∀ offset, scan start offset (bytes ++ rest) = scan start (offset + bytes.length) rest
  | [], _, _ => rfl
  | b :: bytes, plain, offset => by
    obtain ⟨first, others⟩ := List.forall_mem_cons.1 plain
    rw [List.cons_append, scan, first]
    show scan start (offset + 1) (bytes ++ rest) = _
    rw [scan_plain start rest others, List.length_cons, Nat.add_assoc, Nat.add_comm 1]

/-- A character is passed as a whole if it needs no escape, and its bytes are cut out otherwise. -/
theorem scan_char (start offset : Nat) (c : Char) (rest : Bytes) :
    scan start offset (String.utf8EncodeChar c ++ rest) =
      match escape? c with
      | some escape => .between start offset :: .text escape ::
          scan (offset + (String.utf8EncodeChar c).length) (offset + (String.utf8EncodeChar c).length) rest
      | none => scan start (offset + (String.utf8EncodeChar c).length) rest := by
  by_cases ascii : c.toNat < 0x80
  · rw [Utf8.encodeChar_of_lt ascii, List.singleton_append, scan, byteEscape?_of_ascii ascii]
    rfl
  · have large := Nat.le_of_not_lt ascii
    have plain : ∀ b ∈ String.utf8EncodeChar c, byteEscape? b = none := fun b hb =>
      byteEscape?_of_le (Utf8.le_of_mem_encodeChar large hb)
    rw [escape?_of_le large, scan_plain start rest plain]

/-- What a slice hands on of a text: characters of it, from the offset of one to that of another, or a text of its
own. -/
inductive Cuts (cs : List Char) : Slice → List Char → Prop where
  | between (before piece after : List Char) : cs = before ++ piece ++ after →
      Cuts cs (.between (Utf8.size before) (Utf8.size before + Utf8.size piece)) piece
  | text (piece : List Char) : Cuts cs (.text piece) piece

theorem Cuts.bytes_eq {cs piece : List Char} {slice : Slice} (h : Cuts cs slice piece) :
    slice.bytes (Utf8.encode cs) = Utf8.encode piece := by
  cases h with
  | between before piece after split =>
    rw [Slice.bytes, split, Nat.add_sub_cancel_left, ← Utf8.length_encode, ← Utf8.length_encode, Utf8.encode_append,
      Utf8.encode_append, List.append_assoc, List.drop_left, List.take_left]
  | text => rfl

/-- **The bytes are cut where the characters are.**  `run` holds the characters since the last cut, in reverse. -/
theorem cuts_scan {cs : List Char} : ∀ (before run rest : List Char), cs = before ++ run.reverse ++ rest →
    List.Forall₂ (Cuts cs) (scan (Utf8.size before) (Utf8.size before + Utf8.size run.reverse) (Utf8.encode rest))
      (body run rest)
  | before, run, [], split => .cons (.between before run.reverse [] split) .nil
  | before, run, c :: rest, split => by
    have grown : Utf8.size (c :: run).reverse = Utf8.size run.reverse + c.utf8Size := by
      rw [List.reverse_cons, Utf8.size_append]
      rfl
    have passed : cs = before ++ (c :: run).reverse ++ rest := by
      rw [split, List.reverse_cons, List.append_assoc, List.append_assoc, List.append_assoc, List.singleton_append]
    rw [Utf8.encode_cons, scan_char, body, String.length_utf8EncodeChar, Nat.add_assoc, ← grown]
    cases escape? c with
    | none => exact cuts_scan before (c :: run) rest passed
    | some escape =>
      have passed' : cs = before ++ (c :: run).reverse ++ [].reverse ++ rest := by
        rw [passed, List.reverse_nil, List.append_nil]
      have behind := cuts_scan (before ++ (c :: run).reverse) [] rest passed'
      rw [List.reverse_nil, Utf8.size_append] at behind
      exact .cons (.between before run.reverse (c :: rest) split) (.cons (.text escape) behind)

theorem cuts_slices (cs : List Char) : List.Forall₂ (Cuts cs) (slices (Utf8.encode cs)) (pieces cs) :=
  .cons (.text ['"']) (List.rel_append (cuts_scan [] [] cs rfl) (.cons (.text ['"']) .nil))

/-!
## What is handed on
-/

/-- A backslash and what stands behind it: a letter or a sign of its own, or the number of a character. -/
inductive IsEscape : List Char → Prop where
  | letter {x c : Char} : unescape? x = some c → IsEscape ['\\', x]
  | number {m n : Nat} : m < 16 → n < 16 → IsEscape ['\\', 'u', '0', '0', Nat.digitChar m, Nat.digitChar n]

theorem isEscape_of_escape? {c : Char} {e : List Char} (h : escape? c = some e) : IsEscape e := by
  rcases escape?_eq_some h with ⟨x, rfl, -, back⟩ | ⟨m, n, hm, hn, -, rfl⟩
  · exact .letter back
  · exact .number hm hn

/-- Between the quotes is nothing but escapes and runs of characters that need none. -/
theorem body_pieces : ∀ (run cs : List Char), (∀ c ∈ run, escape? c = none) →
    ∀ piece ∈ body run cs, (∀ c ∈ piece, escape? c = none) ∨ IsEscape piece
  | run, [], plain => List.forall_mem_singleton.2 (.inl fun c hc => plain c (List.mem_reverse.1 hc))
  | run, c :: rest, plain => by
    rw [body]
    cases h : escape? c with
    | none => exact body_pieces (c :: run) rest (List.forall_mem_cons.2 ⟨h, plain⟩)
    | some escape =>
      have here : ∀ c ∈ run.reverse, escape? c = none := fun c hc => plain c (List.mem_reverse.1 hc)
      exact List.forall_mem_cons.2 ⟨.inl here, List.forall_mem_cons.2 ⟨.inr (isEscape_of_escape? h),
        body_pieces [] rest (List.forall_mem_nil _)⟩⟩

/-- A character that may stand in a text as it is: no control character, and not the one that deletes. -/
def Printable (c : Char) : Prop := 0x20 ≤ c.toNat ∧ c.toNat ≠ 0x7f

instance (c : Char) : Decidable (Printable c) := inferInstanceAs (Decidable (_ ∧ _))

theorem IsEscape.printable {e : List Char} (h : IsEscape e) : ∀ c ∈ e, Printable c := by
  cases h with
  | @letter x c back =>
    have known : ∀ x c, unescape? x = some c → Printable x := by
      intro x c h
      unfold unescape? at h
      split at h
      case h_9 => cases h
      all_goals decide
    exact List.forall_mem_cons.2 ⟨by decide, List.forall_mem_singleton.2 (known x c back)⟩
  | number hm hn =>
    have digit : ∀ n < 16, Printable (Nat.digitChar n) := by decide
    simp only [List.forall_mem_cons]
    exact ⟨by decide, by decide, by decide, by decide, digit _ hm, digit _ hn, List.forall_mem_nil _⟩

theorem printable_encode (cs : List Char) : ∀ c ∈ encode cs, Printable c := by
  intro c hc
  obtain ⟨piece, hpiece, hc⟩ := List.mem_flatten.1 hc
  rcases List.mem_append.1 hpiece with hpiece | hpiece
  · rcases List.mem_cons.1 hpiece with rfl | hpiece
    · obtain rfl := List.mem_singleton.1 hc
      decide
    · rcases body_pieces [] cs (List.forall_mem_nil _) piece hpiece with plain | escape
      · exact printable_of_escape? (plain c hc)
      · exact escape.printable c hc
  · obtain rfl := List.mem_singleton.1 hpiece
    obtain rfl := List.mem_singleton.1 hc
    decide

end Quoted

namespace DebugText

/-- A string in quotes is read up to the closing one, and no byte further. -/
theorem quoted_encode (cs : List Char) (offset : Nat) (rest closers : List Char) :
    quoted ⟨offset, Quoted.encode cs ++ rest, closers⟩ =
      .ok (cs, ⟨offset + Utf8.size (Quoted.encode cs), rest, closers⟩) := by
  have enough : cs.length < (cs.flatMap Quoted.spell ++ '"' :: rest).length + 1 := by
    have := Quoted.length_le_flatMap_spell cs
    rw [List.length_append]
    omega
  have body := stringBody_encode cs _ (offset + Utf8.size ['"']) rest closers enough
  have size : Utf8.size (Quoted.encode cs) = Utf8.size ['"'] + Utf8.size (cs.flatMap Quoted.spell ++ ['"']) := by
    rw [Quoted.encode_eq, ← List.singleton_append, Utf8.size_append]
  rw [size, ← Nat.add_assoc, Quoted.encode_eq, List.cons_append, List.append_assoc, List.singleton_append]
  exact quoted_eq_ok.2 ⟨_, expect_append [] rfl (by decide), body⟩

end DebugText

open Quoted (Slice slices pieces body encode IsEscape Printable)

/-- An offset in the bytes of a text where one character ends and another may begin. -/
def IsBoundary (cs : List Char) (offset : Nat) : Prop :=
  ∃ before after, cs = before ++ after ∧ offset = (Utf8.encode before).length

theorem Quoted.Cuts.isBoundary {cs piece : List Char} {start stop : Nat} (h : Cuts cs (.between start stop) piece) :
    IsBoundary cs start ∧ IsBoundary cs stop ∧ start ≤ stop := by
  cases h with
  | between before piece after split =>
    refine ⟨⟨before, piece ++ after, ?_, (Utf8.length_encode before).symm⟩, ⟨before ++ piece, after, split, ?_⟩,
      Nat.le_add_right _ _⟩
    · rw [split, List.append_assoc]
    · rw [Utf8.length_encode, Utf8.size_append]

/-- **One way to write a string, and two ways to read it.**  The bytes of a string are cut between characters only, and
what is handed on is its text in quotes.  In that text is no control character and no `U+007F`; between its quotes stand
runs of characters, without quotes and backslashes, and escapes.  With anything behind it, the scanner of debug texts
reads the string and stops behind the closing quote; so does the reader of JSON, and so does whatever reads strings by
the grammar of JSON, which has no other string in front of that text. -/
theorem escapes_read_back (s : String) (rest : List Char) :
    (∀ start stop, Slice.between start stop ∈ slices (Utf8.encode s.toList) →
      IsBoundary s.toList start ∧ IsBoundary s.toList stop ∧ start ≤ stop) ∧
    (slices (Utf8.encode s.toList)).map (·.bytes (Utf8.encode s.toList)) = (pieces s.toList).map Utf8.encode ∧
    (∀ c ∈ encode s.toList, Printable c) ∧
    (encode s.toList = '"' :: ((body [] s.toList).flatten ++ ['"']) ∧
      ∀ piece ∈ body [] s.toList, (∀ c ∈ piece, c ≠ '"' ∧ c ≠ '\\') ∨ IsEscape piece) ∧
    (∀ offset closers, DebugText.quoted ⟨offset, encode s.toList ++ rest, closers⟩ =
      .ok (s.toList, ⟨offset + (Utf8.encode (encode s.toList)).length, rest, closers⟩)) ∧
    Json.string? (encode s.toList ++ rest) = some (s, rest) ∧
    Json.Quotes (encode s.toList) s ∧
    ∀ front back t, Json.Quotes front t → front ++ back = encode s.toList ++ rest →
      front = encode s.toList ∧ t = s ∧ back = rest := by
  have cuts := Quoted.cuts_slices s.toList
  have bounded : ∀ slice ∈ slices (Utf8.encode s.toList), ∀ start stop, slice = .between start stop →
      IsBoundary s.toList start ∧ IsBoundary s.toList stop ∧ start ≤ stop := by
    refine ((List.forall₂_and_left ..).1 (cuts.imp fun slice piece h => ⟨?_, h⟩)).1
    rintro start stop rfl
    exact h.isBoundary
  refine ⟨fun start stop cut => bounded _ cut start stop rfl, ?_, Quoted.printable_encode s.toList, ⟨?_, ?_⟩,
    fun offset closers => ?_, Json.string?_encode s rest, Json.quotes_encode s, fun front back t quotes same => ?_⟩
  · rw [← List.forall₂_eq_eq_eq, List.forall₂_map_left_iff, List.forall₂_map_right_iff]
    exact cuts.imp fun _ _ h => h.bytes_eq
  · rw [encode, pieces, List.flatten_append, List.flatten_cons, List.flatten_singleton]
    rfl
  · intro piece hpiece
    rcases Quoted.body_pieces [] s.toList (List.forall_mem_nil _) piece hpiece with plain | escape
    · exact .inl fun c hc => Quoted.plain_of_escape? (plain c hc)
    · exact .inr escape
  · rw [Utf8.length_encode]
    exact DebugText.quoted_encode s.toList offset rest closers
  · obtain ⟨rfl, rfl⟩ := quotes.unique (Json.quotes_encode s) same
    exact ⟨List.append_cancel_right same, rfl, rfl⟩

/-- A character of two bytes and a line break, with a hexadecimal digit behind the string. -/
theorem escapes_read_back_acute :
    Slice.between 0 2 ∈ slices (Utf8.encode "é\n".toList) ∧ IsBoundary "é\n".toList 2 ∧
      DebugText.quoted ⟨7, encode "é\n".toList ++ ['a'], []⟩ = .ok ("é\n".toList, ⟨13, ['a'], []⟩) ∧
      ∀ t back, Json.Quotes (encode "é\n".toList) t → encode "é\n".toList ++ back = encode "é\n".toList ++ ['a'] →
        t = "é\n" ∧ back = ['a'] := by
  have cut : Slice.between 0 2 ∈ slices (Utf8.encode "é\n".toList) := by decide
  obtain ⟨cuts, -, -, -, scanned, -, -, unique⟩ := escapes_read_back "é\n" ['a']
  exact ⟨cut, (cuts 0 2 cut).2.1, scanned 7 [], fun t back quotes same => (unique _ back t quotes same).2⟩

end AssetRecords
