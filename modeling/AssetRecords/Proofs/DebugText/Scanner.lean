import AssetRecords.DebugText.Scanner
import AssetRecords.Proofs.Number
import AssetRecords.Proofs.Outcome
import AssetRecords.Proofs.Quoted
import AssetRecords.Proofs.Utf8
/-!
# Scanner — what the scanner takes

`Yields` says what a read gives and what it leaves, wherever in a text and inside whatever brackets it is made.  Each
step of the scanner has one such lemma, so that no proof about a value looks into the scanner.
-/
namespace AssetRecords
namespace DebugText

variable {α β : Type}

/-- A read gives a value and leaves the scanner at what is left then, with such brackets owed. -/
def Yields (read : Scan α) (s : Scanner) (a : α) (rest closers : List Char) : Prop :=
  ∃ offset, read s = .ok (a, ⟨offset, rest, closers⟩)

section Yielding

variable {read : Scan α} {s : Scanner} {a : α} {rest closers : List Char}

theorem Yields.bind {next : α → Scan β} {b : β} {rest' closers' : List Char} (h : Yields read s a rest closers)
    (h' : ∀ offset, Yields (next a) ⟨offset, rest, closers⟩ b rest' closers') :
    Yields (read >>= next) s b rest' closers' := by
  obtain ⟨offset, h⟩ := h
  obtain ⟨offset', h'⟩ := h' offset
  refine ⟨offset', ?_⟩
  show (read s >>= fun p => next p.1 p.2) = _
  rw [h]
  exact h'

theorem Yields.map (f : α → β) (h : Yields read s a rest closers) : Yields (f <$> read) s (f a) rest closers := by
  obtain ⟨offset, h⟩ := h
  refine ⟨offset, ?_⟩
  show (fun p => (f p.1, p.2)) <$> read s = _
  rw [h]
  rfl

theorem yields_pure (a : α) (s : Scanner) : Yields (pure a) s a s.rest s.closers := ⟨s.offset, rfl⟩

theorem yields_liftM {e : Except Error α} (h : e = .ok a) (s : Scanner) : Yields (liftM e) s a s.rest s.closers := by
  subst h
  exact ⟨s.offset, rfl⟩

theorem yields_get (s : Scanner) : Yields (get : Scan Scanner) s s s.rest s.closers := ⟨s.offset, rfl⟩

end Yielding

theorem advance_append (offset : Nat) (front rest closers : List Char) :
    (⟨offset, front ++ rest, closers⟩ : Scanner).advance front.length = ⟨offset + Utf8.size front, rest, closers⟩ := by
  rw [Scanner.advance, List.take_left, List.drop_left]

/-- What is behind a text that stands unquoted: nothing, or a character that ends it. -/
def Stops (after : List Char) : Prop := ∀ c, after.head? = some c → isDelimiter c = true

theorem stops_nil : Stops [] := nofun

theorem stops_cons {c : Char} {rest : List Char} (h : isDelimiter c = true) : Stops (c :: rest) := by
  rintro _ ⟨⟩
  exact h

/-- A run of characters of one kind ends where another begins. -/
theorem takeWhile_append {p : Char → Bool} {front after : List Char} (h : front.all p = true)
    (h' : ∀ c, after.head? = some c → p c = false) : (front ++ after).takeWhile p = front := by
  rw [List.takeWhile_append_of_pos (List.all_eq_true.1 h)]
  cases after with
  | nil => rw [List.takeWhile_nil, List.append_nil]
  | cons c rest => rw [List.takeWhile_cons_of_neg (by rw [h' c rfl]; decide), List.append_nil]

section Tokens

variable {offset : Nat} (gap : List Char) {rest after closers : List Char}

theorem skipBlanks_append (blank : gap.all Text.isBlank = true)
    (solid : ∀ c, rest.head? = some c → Text.isBlank c = false) :
    (⟨offset, gap ++ rest, closers⟩ : Scanner).skipBlanks = ⟨offset + Utf8.size gap, rest, closers⟩ := by
  rw [Scanner.skipBlanks, takeWhile_append blank solid, advance_append]

theorem yields_peek (blank : gap.all Text.isBlank = true) (solid : ∀ c, rest.head? = some c → Text.isBlank c = false) :
    Yields peek ⟨offset, gap ++ rest, closers⟩ rest.head? rest closers := by
  refine ⟨offset + Utf8.size gap, ?_⟩
  rw [← skipBlanks_append gap blank solid]
  show Except.ok (_, _) = _
  rw [skipBlanks_append gap blank solid]

theorem expect_apply (c : Char) (s : Scanner) : expect c s =
    if s.skipBlanks.rest.head? = some c then .ok ((), s.skipBlanks.advance 1)
    else .error (s.skipBlanks.fault (.expected c (s.skipBlanks.rest.head?.map firstByte))) := by
  show (if s.skipBlanks.rest.head? = some c then _ else _ : Scan Unit) _ = _
  split <;> rfl

/-- Behind blanks stands what is expected. -/
theorem expect_append {c : Char} (blank : gap.all Text.isBlank = true) (solid : Text.isBlank c = false) :
    expect c ⟨offset, gap ++ c :: rest, closers⟩ = .ok ((), ⟨offset + Utf8.size (gap ++ [c]), rest, closers⟩) := by
  have stop : (⟨offset, gap ++ c :: rest, closers⟩ : Scanner).skipBlanks = ⟨offset + Utf8.size gap, c :: rest, closers⟩ :=
    skipBlanks_append gap blank (by rintro _ ⟨⟩; exact solid)
  rw [expect_apply, stop, List.head?_cons, if_pos rfl, Utf8.size_append, ← Nat.add_assoc]
  exact congrArg (fun s => Except.ok ((), s)) (advance_append _ [c] rest closers)

theorem yields_expect {c : Char} (blank : gap.all Text.isBlank = true) (solid : Text.isBlank c = false) :
    Yields (expect c) ⟨offset, gap ++ c :: rest, closers⟩ () rest closers :=
  ⟨_, expect_append gap blank solid⟩

theorem yields_openBracket {first last : Char} (blank : gap.all Text.isBlank = true)
    (solid : Text.isBlank first = false) :
    Yields (openBracket first last) ⟨offset, gap ++ first :: rest, closers⟩ () rest (last :: closers) :=
  (yields_expect gap blank solid).bind fun offset => ⟨offset, rfl⟩

theorem yields_closeBracket {last : Char} (solid : Text.isBlank last = false) :
    Yields closeBracket ⟨offset, last :: rest, last :: closers⟩ () rest closers :=
  yields_expect [] rfl solid

theorem yields_more_comma : Yields more ⟨offset, ',' :: rest, closers⟩ true rest closers := by
  have comma : Yields peek ⟨offset, ',' :: rest, closers⟩ (some ',') (',' :: rest) closers :=
    yields_peek [] rfl (by rintro _ ⟨⟩; decide)
  exact comma.bind fun offset => ⟨_, congrArg (fun s => Except.ok (true, s)) (advance_append offset [','] rest closers)⟩

theorem yields_more_close {last : Char} (solid : Text.isBlank last = false) (comma : last ≠ ',') :
    Yields more ⟨offset, last :: rest, last :: closers⟩ false (last :: rest) (last :: closers) := by
  have found : Yields peek ⟨offset, last :: rest, last :: closers⟩ (some last) (last :: rest) (last :: closers) :=
    yields_peek [] rfl (by rintro _ ⟨⟩; exact solid)
  refine found.bind fun offset => ?_
  refine (yields_get _).bind fun offset => ?_
  split
  · rename_i heq
    cases heq
    exact absurd rfl comma
  · rw [List.head?_cons, Option.isSome_some, Bool.true_and, beq_self_eq_true, if_pos rfl]
    exact ⟨offset, rfl⟩

/-- Without quotes stands what is not empty and has no delimiter in it. -/
def IsToken (cs : List Char) : Prop := cs ≠ [] ∧ cs.all (!isDelimiter ·) = true

instance (cs : List Char) : Decidable (IsToken cs) := inferInstanceAs (Decidable (_ ∧ _))

theorem isBlank_of_isDelimiter {c : Char} (h : isDelimiter c = false) : Text.isBlank c = false := by
  cases blank : Text.isBlank c with
  | false => rfl
  | true => rw [isDelimiter, blank] at h; exact h

theorem Stops.ends (h : Stops after) (c : Char) (hc : after.head? = some c) : (!isDelimiter c) = false := by
  rw [h c hc]
  rfl

theorem IsToken.solid {t : List Char} (h : IsToken t) (c : Char) (hc : (t ++ after).head? = some c) :
    Text.isBlank c = false := by
  obtain ⟨some, plain⟩ := h
  cases t with
  | nil => exact absurd rfl some
  | cons d ds =>
    cases hc
    rw [List.all_cons, Bool.and_eq_true] at plain
    exact isBlank_of_isDelimiter (Bool.not_eq_true' _ ▸ plain.1)

theorem isDelimiter_of_isNumeral {c : Char} (h : Decimal.isNumeral c = true) : isDelimiter c = false := by
  have ascii : ∀ n < 128, Decimal.isNumeral (Char.ofNat n) = true → isDelimiter (Char.ofNat n) = false := by decide
  have small := Decimal.toNat_lt_of_isNumeral h
  rw [← Char.ofNat_toNat c] at h ⊢
  exact ascii _ small h

theorem isToken_of_isNumeral {cs : List Char} (h : cs.all Decimal.isNumeral = true ∧ cs ≠ []) : IsToken cs := by
  refine ⟨h.2, List.all_eq_true.2 fun c hc => ?_⟩
  rw [isDelimiter_of_isNumeral (List.all_eq_true.1 h.1 c hc)]
  rfl

theorem nextToken_append {t : List Char} (blank : gap.all Text.isBlank = true) (plain : t.all (!isDelimiter ·) = true)
    (solid : ∀ c, (t ++ after).head? = some c → Text.isBlank c = false) (stops : Stops after) :
    nextToken ⟨offset, gap ++ (t ++ after), closers⟩ = t := by
  rw [nextToken, skipBlanks_append gap blank solid, takeWhile_append plain stops.ends]

theorem token_apply (s : Scanner) : token s =
    if (nextToken s).isEmpty then .error (s.skipBlanks.fault .expectedValue)
    else .ok (nextToken s, s.skipBlanks.advance (nextToken s).length) := by
  show (if (nextToken s).isEmpty then _ else _ : Scan (List Char)) _ = _
  split <;> rfl

theorem yields_token {t : List Char} (blank : gap.all Text.isBlank = true) (h : IsToken t) (stops : Stops after) :
    Yields token ⟨offset, gap ++ (t ++ after), closers⟩ t after closers := by
  have next : nextToken ⟨offset, gap ++ (t ++ after), closers⟩ = t := nextToken_append gap blank h.2 h.solid stops
  have some : t.isEmpty = false := List.isEmpty_eq_false_iff.2 h.1
  refine ⟨offset + Utf8.size gap + Utf8.size t, ?_⟩
  rw [token_apply, next, some, skipBlanks_append gap blank h.solid, advance_append]
  rfl

end Tokens

/-!
## Strings
-/

theorem scalarValue?_toNat (c : Char) : scalarValue? c.toNat = some c := by
  have valid : c.toNat.isValidChar := c.valid
  rw [scalarValue?, dif_pos valid]
  rfl

theorem takeBytes_digits {m n : Nat} (hm : m < 16) (hn : n < 16) (rest : List Char) :
    takeBytes 4 ('0' :: '0' :: Nat.digitChar m :: Nat.digitChar n :: rest) =
      some ['0', '0', Nat.digitChar m, Nat.digitChar n] := by
  have one : ∀ n < 16, (Nat.digitChar n).utf8Size = 1 := by decide
  simp [takeBytes, one m hm, one n hn, show '0'.utf8Size = 1 from rfl]

theorem codePoint?_digits {m n : Nat} (hm : m < 16) (hn : n < 16) :
    codePoint? ['0', '0', Nat.digitChar m, Nat.digitChar n] = some (16 * m + n) := by
  simp [codePoint?, Quoted.hex?, Quoted.hexDigit?_digitChar _ hm, Quoted.hexDigit?_digitChar _ hn,
    show Quoted.hexDigit? '0' = some 0 from rfl]

section Strings

variable {fuel offset : Nat} {c : Char} {rest closers : List Char}

theorem stringBody_plain (quote : c ≠ '"') (backslash : c ≠ '\\') :
    stringBody (fuel + 1) ⟨offset, c :: rest, closers⟩ =
      (fun r => (c :: r.1, r.2)) <$> stringBody fuel (Scanner.advance ⟨offset, c :: rest, closers⟩ 1) := by
  simp only [stringBody]
  split
  case h_1 heq => cases heq
  case h_2 heq => cases heq; exact absurd rfl quote
  case h_3 heq => cases heq; exact absurd rfl backslash
  case h_4 heq => cases heq; exact absurd rfl backslash
  case h_5 heq => cases heq; rfl

theorem stringBody_escape {x : Char} (u : x ≠ 'u') (back : Quoted.unescape? x = some c) :
    stringBody (fuel + 1) ⟨offset, '\\' :: x :: rest, closers⟩ =
      (fun r => (c :: r.1, r.2)) <$> stringBody fuel (Scanner.advance ⟨offset, '\\' :: x :: rest, closers⟩ 2) := by
  simp only [stringBody]
  split
  case h_1 heq => cases heq
  case h_2 heq => cases heq
  case h_3 heq => cases heq; exact absurd rfl u
  case h_4 heq => cases heq; simp [back]
  case h_5 backslash heq => cases heq; exact absurd rfl backslash

theorem stringBody_codePoint {digits : List Char} (four : takeBytes 4 rest = some digits)
    (back : (codePoint? digits).bind scalarValue? = some c) :
    stringBody (fuel + 1) ⟨offset, '\\' :: 'u' :: rest, closers⟩ = (fun r => (c :: r.1, r.2)) <$>
      stringBody fuel (Scanner.advance ⟨offset, '\\' :: 'u' :: rest, closers⟩ (2 + digits.length)) := by
  simp [stringBody, four, back]

end Strings

/-- A spelled character is read back, and then the rest of the string. -/
theorem stringBody_spell (fuel offset : Nat) (c : Char) (rest closers : List Char) :
    stringBody (fuel + 1) ⟨offset, Quoted.spell c ++ rest, closers⟩ =
      (fun r => (c :: r.1, r.2)) <$> stringBody fuel ⟨offset + Utf8.size (Quoted.spell c), rest, closers⟩ := by
  rw [← advance_append, Quoted.spell]
  cases h : Quoted.escape? c with
  | none =>
    obtain ⟨quote, backslash⟩ := Quoted.plain_of_escape? h
    exact stringBody_plain quote backslash
  | some e =>
    rcases Quoted.escape?_eq_some h with ⟨x, rfl, u, back⟩ | ⟨m, n, hm, hn, number, rfl⟩
    · exact stringBody_escape u back
    · refine stringBody_codePoint (takeBytes_digits hm hn rest) ?_
      rw [codePoint?_digits hm hn, Option.bind_some, ← number]
      exact scalarValue?_toNat c

/-- The characters of a string are read up to its closing quote, and no byte further. -/
theorem stringBody_encode : ∀ (cs : List Char) (fuel offset : Nat) (after closers : List Char), cs.length < fuel →
    stringBody fuel ⟨offset, cs.flatMap Quoted.spell ++ '"' :: after, closers⟩ =
      .ok (cs, ⟨offset + Utf8.size (cs.flatMap Quoted.spell ++ ['"']), after, closers⟩)
  | _, 0, _, _, _, h => absurd h (Nat.not_lt_zero _)
  | [], fuel + 1, offset, after, closers, _ =>
    congrArg (fun s => Except.ok ([], s)) (advance_append offset ['"'] after closers)
  | c :: rest, fuel + 1, offset, after, closers, h => by
    rw [List.flatMap_cons, List.append_assoc, List.append_assoc, stringBody_spell,
      stringBody_encode rest fuel _ after closers (Nat.lt_of_succ_lt_succ h), Utf8.size_append (Quoted.spell c),
      ← Nat.add_assoc]
    rfl

/-- **A string is read back from its quotes.** -/
theorem yields_quoted {offset : Nat} {gap after closers : List Char} (cs : List Char)
    (blank : gap.all Text.isBlank = true) :
    Yields quoted ⟨offset, gap ++ (Quoted.encode cs ++ after), closers⟩ cs after closers := by
  rw [Quoted.encode_eq, List.cons_append, List.append_assoc]
  refine (yields_expect gap blank (by decide)).bind fun offset => ?_
  have enough : cs.length < (cs.flatMap Quoted.spell ++ (['"'] ++ after)).length + 1 := by
    have := Quoted.length_le_flatMap_spell cs
    rw [List.length_append]
    omega
  have body := stringBody_encode cs _ offset after closers enough
  exact (yields_get _).bind fun _ => (yields_liftM body _).bind fun _ => ⟨_, rfl⟩

end DebugText
end AssetRecords
