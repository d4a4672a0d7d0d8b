import AssetRecords.Proofs.DebugText.Lexemes
/-!
# Strings — what a string that is read is made of

What may stand between two quotes is told by a grammar (`Spells`): characters for themselves, escapes of two characters,
and code points of four digits, one of which may be a plus sign.  A string is read exactly if the grammar spells it
(`stringBody_of_spells`, `exists_of_stringBody`), so that reading a string and cutting a text into tokens find the same
closing quote (`Spells.inner`).
-/
namespace AssetRecords
namespace DebugText

/-!
## The grammar
-/

/-- How a character may stand in a string: for itself, as an escape of two characters, or as four hexadecimal digits.
With `signs`, a plus sign may stand in the place of the first of them. -/
inductive Stands (signs : Bool) : List Char → Char → Prop where
  | plain {c : Char} (quote : c ≠ '"') (backslash : c ≠ '\\') : Stands signs [c] c
  | escape {x c : Char} (known : Quoted.unescape? x = some c) : Stands signs ['\\', x] c
  | point {ds : List Char} {c : Char} (four : ds.length = 4) (spelled : Quoted.hex? ds = some c.toNat) :
      Stands signs ('\\' :: 'u' :: ds) c
  | signed {ds : List Char} {c : Char} (allowed : signs = true) (three : ds.length = 3)
      (spelled : Quoted.hex? ds = some c.toNat) : Stands signs ('\\' :: 'u' :: '+' :: ds) c

/-- What may stand between two quotes, and the characters that it stands for. -/
inductive Spells (signs : Bool) : List Char → List Char → Prop where
  | nil : Spells signs [] []
  | cons {e t : List Char} {c : Char} {cs : List Char} (first : Stands signs e c) (rest : Spells signs t cs) :
      Spells signs (e ++ t) (c :: cs)

theorem Stands.ne_nil {signs : Bool} {e : List Char} {c : Char} (h : Stands signs e c) : e ≠ [] := by
  cases h <;> exact List.cons_ne_nil _ _

/-!
## Code points
-/

theorem takeBytes_cons (count : Nat) (c : Char) (rest : List Char) : takeBytes (count + 1) (c :: rest) =
    if c.utf8Size ≤ count + 1 then (c :: ·) <$> takeBytes (count + 1 - c.utf8Size) rest else none := rfl

theorem takeBytes_zero (cs : List Char) : takeBytes 0 cs = some [] := by cases cs <;> rfl

/-- So many bytes are characters of that size, from the front. -/
theorem takeBytes_eq_some : ∀ {count : Nat} {cs ds : List Char}, takeBytes count cs = some ds →
    Utf8.size ds = count ∧ ∃ rest, cs = ds ++ rest
  | 0, cs, ds, h => by
    rw [takeBytes_zero] at h
    cases h
    exact ⟨rfl, cs, rfl⟩
  | count + 1, [], ds, h => by cases h
  | count + 1, c :: cs, ds, h => by
    rw [takeBytes_cons] at h
    split at h
    case isTrue fits =>
      obtain ⟨ds, taken, rfl⟩ := Option.map_eq_some_iff.1 h
      obtain ⟨size, rest, rfl⟩ := takeBytes_eq_some taken
      refine ⟨?_, rest, rfl⟩
      show c.utf8Size + Utf8.size ds = _
      omega
    case isFalse => cases h

/-- Characters are taken with their bytes. -/
theorem takeBytes_append (rest : List Char) : ∀ ds : List Char, takeBytes (Utf8.size ds) (ds ++ rest) = some ds
  | [] => takeBytes_zero rest
  | d :: ds => by
    have size : Utf8.size (d :: ds) = d.utf8Size + Utf8.size ds := rfl
    obtain ⟨count, pos⟩ := Nat.exists_eq_add_one_of_ne_zero (Nat.ne_of_gt d.utf8Size_pos)
    rw [size, pos, Nat.add_right_comm, List.cons_append, takeBytes_cons, pos,
      if_pos (Nat.add_le_add_right (Nat.le_add_right _ _) 1), Nat.add_right_comm, Nat.add_sub_cancel_left,
      takeBytes_append rest ds]
    rfl

theorem utf8Size_of_hexDigit? {c : Char} (h : Quoted.hexDigit? c ≠ none) : c.utf8Size = 1 := by
  have ascii : ∀ n < 128, (Char.ofNat n).utf8Size = 1 := by decide
  have small : c.toNat < 128 := by
    by_contra large
    have above : ∀ d : Char, d.toNat < 128 → ¬ c ≤ d := fun d hd le => by
      rw [Char.le_def, UInt32.le_iff_toNat_le] at le
      exact large (Nat.lt_of_le_of_lt le hd)
    refine h ?_
    rw [Quoted.hexDigit?, if_neg fun digit => above '9' (by decide) digit.2,
      if_neg fun letter => above 'f' (by decide) letter.2, if_neg fun letter => above 'F' (by decide) letter.2]
  rw [← Char.ofNat_toNat c]
  exact ascii _ small

theorem utf8Size_of_hex? {ds : List Char} {n : Nat} (h : Quoted.hex? ds = some n) : ∀ d ∈ ds, d.utf8Size = 1 :=
  fun d hd => utf8Size_of_hexDigit? (Quoted.hexDigits_of_foldlM h d hd)

/-- Characters of one byte are as many as their bytes. -/
theorem size_eq_length : ∀ {ds : List Char}, (∀ d ∈ ds, d.utf8Size = 1) → Utf8.size ds = ds.length
  | [], _ => rfl
  | d :: ds, h => by
    obtain ⟨first, others⟩ := List.forall_mem_cons.1 h
    show d.utf8Size + Utf8.size ds = ds.length + 1
    rw [first, size_eq_length others, Nat.add_comm]

theorem scalarValue?_eq_some {n : Nat} {c : Char} (h : scalarValue? n = some c) : n = c.toNat := by
  by_cases valid : n.isValidChar
  · rw [scalarValue?, dif_pos valid] at h
    cases h
    rfl
  · rw [scalarValue?, dif_neg valid] at h
    cases h

/-- Four bytes that are taken for a code point are four digits, or a plus sign and three. -/
theorem stands_of_codePoint? {rest ds : List Char} {c : Char} (four : takeBytes 4 rest = some ds)
    (back : (codePoint? ds).bind scalarValue? = some c) : Stands true ('\\' :: 'u' :: ds) c := by
  obtain ⟨size, -⟩ := takeBytes_eq_some four
  obtain ⟨n, spelled, value⟩ := Option.bind_eq_some_iff.1 back
  rw [scalarValue?_eq_some value] at spelled
  unfold codePoint? at spelled
  split at spelled
  · rename_i ds
    have length := size_eq_length (utf8Size_of_hex? spelled)
    have plus : '+'.utf8Size + Utf8.size ds = 4 := size
    refine .signed rfl ?_ spelled
    rw [← length]
    exact Nat.add_left_cancel plus
  · refine .point ?_ spelled
    rw [← size_eq_length (utf8Size_of_hex? spelled), size]

theorem codePoint?_of_hex? {ds : List Char} {n : Nat} (h : Quoted.hex? ds = some n) : codePoint? ds = some n := by
  unfold codePoint?
  split
  · -- a plus sign is no digit
    have digit := Quoted.hexDigits_of_foldlM h '+' List.mem_cons_self
    exact absurd (by decide) digit
  · exact h

/-!
## Reading and spelling
-/

/-- **A character is read as it stands**, and then the rest of the string. -/
theorem stringBody_of_stands {signs : Bool} {e : List Char} {c : Char} (h : Stands signs e c) (fuel offset : Nat)
    (rest closers : List Char) : stringBody (fuel + 1) ⟨offset, e ++ rest, closers⟩ =
      (fun r => (c :: r.1, r.2)) <$> stringBody fuel ⟨offset + Utf8.size e, rest, closers⟩ := by
  rw [← advance_append]
  cases h with
  | plain quote backslash => exact stringBody_plain quote backslash
  | @escape x c known =>
    have u : x ≠ 'u' := by
      rintro rfl
      cases known
    exact stringBody_escape u known
  | @point ds c four spelled =>
    have size : Utf8.size ds = 4 := (size_eq_length (utf8Size_of_hex? spelled)).trans four
    have taken : takeBytes 4 (ds ++ rest) = some ds := size ▸ takeBytes_append rest ds
    have back : (codePoint? ds).bind scalarValue? = some c := by
      rw [codePoint?_of_hex? spelled, Option.bind_some]
      exact scalarValue?_toNat c
    have length : ('\\' :: 'u' :: ds).length = 2 + ds.length := by
      simp only [List.length_cons]
      omega
    rw [length]
    exact stringBody_codePoint taken back
  | @signed ds c _ three spelled =>
    have narrow : ∀ d ∈ '+' :: ds, d.utf8Size = 1 := List.forall_mem_cons.2 ⟨rfl, utf8Size_of_hex? spelled⟩
    have size : Utf8.size ('+' :: ds) = 4 := by rw [size_eq_length narrow, List.length_cons, three]
    have taken : takeBytes 4 ('+' :: ds ++ rest) = some ('+' :: ds) := size ▸ takeBytes_append rest ('+' :: ds)
    have back : (codePoint? ('+' :: ds)).bind scalarValue? = some c := by
      show (Quoted.hex? ds).bind scalarValue? = some c
      rw [spelled, Option.bind_some]
      exact scalarValue?_toNat c
    have length : ('\\' :: 'u' :: '+' :: ds).length = 2 + ('+' :: ds).length := by
      simp only [List.length_cons]
      omega
    rw [length]
    exact stringBody_codePoint taken back

/-- What the grammar spells is read, up to the closing quote. -/
theorem stringBody_of_spells {signs : Bool} {raw cs : List Char} (h : Spells signs raw cs) :
    ∀ (fuel offset : Nat) (after closers : List Char), raw.length < fuel →
      stringBody fuel ⟨offset, raw ++ '"' :: after, closers⟩ =
        .ok (cs, ⟨offset + Utf8.size (raw ++ ['"']), after, closers⟩) := by
  induction h with
  | nil =>
    intro fuel offset after closers enough
    obtain ⟨fuel, rfl⟩ := Nat.exists_eq_add_one_of_ne_zero (Nat.ne_of_gt enough)
    exact congrArg (fun s => Except.ok ([], s)) (advance_append offset ['"'] after closers)
  | @cons e t c cs first _ ih =>
    intro fuel offset after closers enough
    have long := List.length_pos_iff.2 first.ne_nil
    rw [List.length_append] at enough
    obtain ⟨fuel, rfl⟩ := Nat.exists_eq_add_one_of_ne_zero (Nat.ne_of_gt (Nat.zero_lt_of_lt enough))
    rw [List.append_assoc, stringBody_of_stands first, ih fuel _ after closers (by omega), List.append_assoc,
      Utf8.size_append e, ← Nat.add_assoc]
    rfl

/-- The first step of a string that is read: its closing quote, or a character as it stands. -/
theorem stringBody_step {fuel offset : Nat} {rest closers cs : List Char} {s' : Scanner}
    (h : stringBody (fuel + 1) ⟨offset, rest, closers⟩ = .ok (cs, s')) :
    (∃ after, rest = '"' :: after ∧ cs = [] ∧ s' = ⟨offset + Utf8.size ['"'], after, closers⟩) ∨
    ∃ e c behind cs', rest = e ++ behind ∧ Stands true e c ∧ cs = c :: cs' ∧
      stringBody fuel ⟨offset + Utf8.size e, behind, closers⟩ = .ok (cs', s') := by
  have onward : ∀ {e behind : List Char} {c : Char} {count : Nat}, rest = e ++ behind → e.length = count →
      Stands true e c →
      (fun r => (c :: r.1, r.2)) <$> stringBody fuel (Scanner.advance ⟨offset, rest, closers⟩ count) = .ok (cs, s') →
      ∃ e c behind cs', rest = e ++ behind ∧ Stands true e c ∧ cs = c :: cs' ∧
        stringBody fuel ⟨offset + Utf8.size e, behind, closers⟩ = .ok (cs', s') := by
    rintro e behind c _ rfl rfl stands h
    rw [advance_append] at h
    obtain ⟨⟨cs', s⟩, body, ⟨⟩⟩ := Except.map_eq_ok_iff.1 h
    exact ⟨e, c, behind, cs', rfl, stands, rfl, body⟩
  unfold stringBody at h
  split at h
  case h_1 => cases h
  case h_2 after heq =>
    cases h
    cases (heq : rest = '"' :: after)
    exact .inl ⟨after, rfl, rfl, advance_append offset ['"'] after closers⟩
  case h_3 rest' heq =>
    cases (heq : rest = '\\' :: 'u' :: rest')
    split at h
    · cases h
    rename_i ds four
    split at h
    · cases h
    rename_i c back
    obtain ⟨-, behind, rfl⟩ := takeBytes_eq_some four
    have length : ('\\' :: 'u' :: ds).length = 2 + ds.length := by
      simp only [List.length_cons]
      omega
    exact .inr (onward rfl length (stands_of_codePoint? four back) h)
  case h_4 rest' notU heq =>
    cases (heq : rest = '\\' :: rest')
    split at h
    · cases h
    rename_i c back
    obtain ⟨x, first, known⟩ := Option.bind_eq_some_iff.1 back
    obtain ⟨behind, rfl⟩ := List.head?_eq_some_iff.1 first
    exact .inr (onward (e := ['\\', x]) rfl rfl (.escape known) h)
  case h_5 c rest' quote notU backslash heq =>
    cases (heq : rest = c :: rest')
    exact .inr (onward (e := [c]) rfl rfl (.plain quote backslash) h)

/-- **What is read as a string is spelled by the grammar**, and behind it stands a closing quote. -/
theorem exists_of_stringBody : ∀ {fuel offset : Nat} {rest closers cs : List Char} {s' : Scanner},
    stringBody fuel ⟨offset, rest, closers⟩ = .ok (cs, s') →
      ∃ raw after, rest = raw ++ '"' :: after ∧ Spells true raw cs ∧
        s' = ⟨offset + Utf8.size (raw ++ ['"']), after, closers⟩
  | 0, _, _, _, _, _, h => by cases h
  | fuel + 1, offset, rest, closers, cs, s', h => by
    obtain ⟨after, rfl, rfl, rfl⟩ | ⟨e, c, behind, cs', rfl, stands, rfl, body⟩ := stringBody_step h
    · exact ⟨[], after, rfl, .nil, rfl⟩
    · obtain ⟨raw, after, rfl, spells, rfl⟩ := exists_of_stringBody body
      refine ⟨e ++ raw, after, by simp, .cons stands spells, ?_⟩
      rw [List.append_assoc, Utf8.size_append e, Nat.add_assoc]

/-!
## Strings as tokens
-/

theorem inner_nil : Inner [] := fun _ _ => rfl

theorem Inner.plain {c : Char} {raw : List Char} (quote : c ≠ '"') (backslash : c ≠ '\\') (h : Inner raw) :
    Inner (c :: raw) := by
  intro run rest
  simp [lexemesFrom, Place.completed, Place.next, quote, backslash, h (c :: run) rest]

theorem Inner.escape {raw : List Char} (x : Char) (h : Inner raw) : Inner ('\\' :: x :: raw) := by
  intro run rest
  simp [lexemesFrom, Place.completed, Place.next, h (x :: '\\' :: run) rest]

theorem Inner.append {raw : List Char} (h : Inner raw) : ∀ {cs : List Char}, (∀ c ∈ cs, c ≠ '"' ∧ c ≠ '\\') →
    Inner (cs ++ raw)
  | [], _ => h
  | _ :: _, plain =>
    have ⟨first, rest⟩ := List.forall_mem_cons.1 plain
    .plain first.1 first.2 (h.append rest)

theorem plain_of_hex? {ds : List Char} {n : Nat} (h : Quoted.hex? ds = some n) : ∀ d ∈ ds, d ≠ '"' ∧ d ≠ '\\' := by
  intro d hd
  have digit := Quoted.hexDigits_of_foldlM h d hd
  constructor
  · rintro rfl
    exact digit (by decide)
  · rintro rfl
    exact digit (by decide)

/-- No quote in a string is bare. -/
theorem Spells.inner {signs : Bool} {raw cs : List Char} (h : Spells signs raw cs) : Inner raw := by
  induction h with
  | nil => exact inner_nil
  | cons first _ ih =>
    cases first with
    | plain quote backslash => exact ih.plain quote backslash
    | escape known => exact ih.escape _
    | point four spelled => exact (ih.append (plain_of_hex? spelled)).escape 'u'
    | signed _ three spelled => exact ((ih.append (plain_of_hex? spelled)).plain (by decide) (by decide)).escape 'u'

end DebugText
end AssetRecords
