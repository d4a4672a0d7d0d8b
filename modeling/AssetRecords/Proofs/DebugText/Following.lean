import AssetRecords.DebugText.Reader
import AssetRecords.Proofs.DebugText.Strings
import AssetRecords.Proofs.Allowance
/-!
# Following — reads that go along with each other

Two scanners are alike when the same tokens lie before them and the same brackets are owed.  A read follows another when
it succeeds, from a scanner that is alike, wherever that one does: with the same value, and at scanners that are alike
again.  Every reader of debug text follows itself, under limits that admit as much (`follows_value`), since it sees
nothing of a text but its tokens.
-/
namespace AssetRecords
namespace DebugText

variable {α β : Type}

theorem Scan.bind_eq_ok_iff {read : Scan α} {next : α → Scan β} {s s' : Scanner} {b : β} :
    (read >>= next) s = .ok (b, s') ↔ ∃ a m, read s = .ok (a, m) ∧ next a m = .ok (b, s') := by
  show (read s >>= fun p => next p.1 p.2) = _ ↔ _
  rw [Except.bind_eq_ok_iff]
  exact ⟨fun ⟨p, first, second⟩ => ⟨p.1, p.2, first, second⟩, fun ⟨a, m, first, second⟩ => ⟨(a, m), first, second⟩⟩

theorem Scan.get_bind (next : Scanner → Scan β) (s : Scanner) : (get >>= next) s = next s s := rfl

theorem Scan.liftM_eq_ok_iff {e : Except Error α} {s s' : Scanner} {a : α} :
    (liftM e : Scan α) s = .ok (a, s') ↔ e = .ok a ∧ s' = s := by
  cases e with
  | error e => exact ⟨nofun, fun h => nomatch h.1⟩
  | ok b =>
    constructor
    · rintro ⟨⟩
      exact ⟨rfl, rfl⟩
    · rintro ⟨⟨⟩, rfl⟩
      rfl

/-- The same tokens lie before two scanners, `most` of them or fewer, and the same brackets are owed. -/
structure Alike (most : Nat) (s t : Scanner) : Prop where
  tokens : lexemes s.rest = lexemes t.rest
  closers : s.closers = t.closers
  marks : ∀ c ∈ t.closers, isMark c = true
  few : (lexemes t.rest).length ≤ most

namespace Alike

variable {most : Nat} {s t s' : Scanner}

theorem mono {more : Nat} (h : Alike most s t) (le : most ≤ more) : Alike more s t :=
  ⟨h.tokens, h.closers, h.marks, Nat.le_trans h.few le⟩

/-- Where a scanner has passed a token, a read that passes such a token brings the other one along. -/
theorem along {l : Lexeme} {read : Scan α} {v : α} (h : Alike most s t) (closers : s'.closers = s.closers)
    (taken : lexemes s.rest = l :: lexemes s'.rest)
    (again : ∀ gap front after : List Char, gap.all Text.isBlank = true → l.Stands front after →
      Yields read ⟨t.offset, gap ++ (front ++ after), t.closers⟩ v after t.closers) :
    ∃ t' fewer, read t = .ok (v, t') ∧ most = fewer + 1 ∧ Alike fewer s' t' := by
  obtain ⟨tokens, hclosers, marks, few⟩ := h
  rw [taken] at tokens
  obtain ⟨gap, front, after, text, blank, stands, behind⟩ := stands_of_lexemes tokens.symm
  obtain ⟨offset, run⟩ := again gap front after blank stands
  rw [← text] at run
  rw [← tokens, List.length_cons] at few
  obtain ⟨fewer, rfl⟩ := Nat.exists_eq_add_one_of_ne_zero (Nat.ne_of_gt (Nat.zero_lt_of_lt few))
  exact ⟨_, fewer, run, rfl, behind.symm, closers.trans hclosers, marks, by rw [behind]; omega⟩

end Alike

/-- Wherever one read succeeds the other one does, with the same value. -/
structure Follows (most : Nat) (read read' : Scan α) : Prop where
  follow : ∀ {s t : Scanner}, Alike most s t → ∀ {a : α} {s' : Scanner}, read s = .ok (a, s') →
    ∃ t', read' t = .ok (a, t') ∧ Alike most s' t'

section Following

variable {most : Nat} {read read' : Scan α}

theorem follows_pure (a : α) : Follows most (pure a) (pure a) := by
  refine ⟨fun {s t} alike {b s'} run => ?_⟩
  cases run
  exact ⟨t, rfl, alike⟩

theorem follows_throw (e : Error) : Follows most (throw e) read :=
  ⟨fun _ _ _ run => nomatch run⟩

theorem follows_failWith (f : SyntaxFault) : Follows most (failWith f) read := by
  refine ⟨fun _ _ _ run => ?_⟩
  cases run

theorem follows_liftM {e e' : Except Error α} (h : ∀ {a}, e = .ok a → e' = .ok a) :
    Follows most (liftM e : Scan α) (liftM e') := by
  refine ⟨fun {s t} alike {a s'} run => ?_⟩
  obtain ⟨done, rfl⟩ := Scan.liftM_eq_ok_iff.1 run
  exact ⟨t, Scan.liftM_eq_ok_iff.2 ⟨h done, rfl⟩, alike⟩

theorem Follows.bind {next next' : α → Scan β} (h : Follows most read read')
    (h' : ∀ a, Follows most (next a) (next' a)) : Follows most (read >>= next) (read' >>= next') := by
  refine ⟨fun {s t} alike {b s'} run => ?_⟩
  obtain ⟨a, m, first, second⟩ := Scan.bind_eq_ok_iff.1 run
  obtain ⟨m', first', alike'⟩ := h.follow alike first
  obtain ⟨t', second', alike''⟩ := (h' a).follow alike' second
  exact ⟨t', Scan.bind_eq_ok_iff.2 ⟨a, m', first', second'⟩, alike''⟩

theorem Follows.map (f : α → β) (h : Follows most read read') : Follows most (f <$> read) (f <$> read') := by
  simp only [map_eq_pure_bind]
  exact h.bind fun a => follows_pure (f a)

theorem Follows.mapM {read read' : β → Scan α} : ∀ {bs : List β}, (∀ b ∈ bs, Follows most (read b) (read' b)) →
    Follows most (bs.mapM read) (bs.mapM read')
  | [], _ => follows_pure []
  | b :: bs, h => by
    obtain ⟨first, rest⟩ := List.forall_mem_cons.1 h
    rw [List.mapM_cons, List.mapM_cons]
    exact first.bind fun _ => (Follows.mapM rest).bind fun _ => follows_pure _

end Following

/-!
## Tokens
-/

/-- A run of characters of one kind is passed. -/
theorem rest_advance_takeWhile (p : Char → Bool) (s : Scanner) :
    (s.advance (s.rest.takeWhile p).length).rest = s.rest.dropWhile p :=
  List.append_cancel_left ((List.prefix_iff_eq_append.1 (List.takeWhile_prefix p)).trans
    List.takeWhile_append_dropWhile.symm)

theorem skipBlanks_eq (s : Scanner) : s.skipBlanks =
    ⟨s.offset + Utf8.size (s.rest.takeWhile Text.isBlank), s.rest.dropWhile Text.isBlank, s.closers⟩ := by
  have passed := advance_append s.offset (s.rest.takeWhile Text.isBlank) (s.rest.dropWhile Text.isBlank) s.closers
  rwa [List.takeWhile_append_dropWhile] at passed

/-- The blanks that are skipped. -/
theorem skipBlanks_split (s : Scanner) : ∃ gap rest, gap.all Text.isBlank = true ∧ s.rest = gap ++ rest ∧
    s.skipBlanks = ⟨s.offset + Utf8.size gap, rest, s.closers⟩ :=
  ⟨_, _, List.all_takeWhile, List.takeWhile_append_dropWhile.symm, skipBlanks_eq s⟩

theorem lexemes_skipBlanks (s : Scanner) : lexemes s.skipBlanks.rest = lexemes s.rest := by
  obtain ⟨gap, rest, blank, text, skipped⟩ := skipBlanks_split s
  rw [text, lexemes_blank blank, skipped]

/-- What is seen next is the first character of the next token. -/
theorem head?_skipBlanks (s : Scanner) : s.skipBlanks.rest.head? = (lexemes s.rest).head?.bind Lexeme.firstChar := by
  obtain ⟨offset, rest, closers⟩ := s
  cases tokens : lexemes rest with
  | nil =>
    have blank := all_isBlank_of_lexemes tokens
    have stop : (⟨offset, rest ++ [], closers⟩ : Scanner).skipBlanks = ⟨offset + Utf8.size rest, [], closers⟩ :=
      skipBlanks_append rest blank nofun
    rw [List.append_nil] at stop
    rw [stop]
    rfl
  | cons l ls =>
    obtain ⟨gap, front, after, rfl, blank, stands, -⟩ := stands_of_lexemes tokens
    rw [skipBlanks_append gap blank stands.solid]
    exact stands.head?

theorem Alike.skipBlanks {most : Nat} {s t : Scanner} (h : Alike most s t) : Alike most s.skipBlanks t.skipBlanks :=
  ⟨by rw [lexemes_skipBlanks, lexemes_skipBlanks, h.tokens], h.closers, h.marks, by
    rw [lexemes_skipBlanks]
    exact h.few⟩

theorem Alike.head? {most : Nat} {s t : Scanner} (h : Alike most s t) :
    s.skipBlanks.rest.head? = t.skipBlanks.rest.head? := by
  rw [head?_skipBlanks, head?_skipBlanks, h.tokens]

variable {most : Nat}

theorem peek_apply (s : Scanner) : peek s = .ok (s.skipBlanks.rest.head?, s.skipBlanks) := rfl

theorem follows_peek : Follows most peek peek := by
  refine ⟨fun {s t} alike {a s'} run => ?_⟩
  cases run
  exact ⟨t.skipBlanks, by rw [peek_apply, alike.head?], alike.skipBlanks⟩

/-- What is expected and found is passed. -/
theorem expect_eq_ok {c : Char} {s s' : Scanner} {u : Unit} (h : expect c s = .ok (u, s')) :
    ∃ gap rest, gap.all Text.isBlank = true ∧ s.rest = gap ++ c :: rest ∧
      s' = ⟨s.offset + Utf8.size (gap ++ [c]), rest, s.closers⟩ := by
  obtain ⟨gap, behind, blank, text, skipped⟩ := skipBlanks_split s
  rw [expect_apply, skipped] at h
  split at h
  case isTrue found =>
    obtain ⟨rest, rfl⟩ := List.head?_eq_some_iff.1 found
    cases h
    refine ⟨gap, rest, blank, text, ?_⟩
    rw [Utf8.size_append, ← Nat.add_assoc]
    exact advance_append _ [c] rest s.closers
  case isFalse => cases h

/-- What takes one token for itself follows itself. -/
theorem follows_of_along {read : Scan α} (h : ∀ {s t : Scanner}, Alike most s t → ∀ {a : α} {s' : Scanner},
    read s = .ok (a, s') → ∃ t' fewer, read t = .ok (a, t') ∧ most = fewer + 1 ∧ Alike fewer s' t') :
    Follows most read read := by
  refine ⟨fun alike _ _ run => ?_⟩
  obtain ⟨t', fewer, run', rfl, alike'⟩ := h alike run
  exact ⟨t', run', alike'.mono (Nat.le_succ fewer)⟩

theorem expect_along {c : Char} (mark : isMark c = true) {s t s' : Scanner} (alike : Alike most s t) {u : Unit}
    (run : expect c s = .ok (u, s')) : ∃ t' fewer, expect c t = .ok (u, t') ∧ most = fewer + 1 ∧ Alike fewer s' t' := by
  obtain ⟨gap, rest, blank, text, rfl⟩ := expect_eq_ok run
  have taken : lexemes s.rest = .mark c :: lexemes rest := by rw [text, lexemes_blank blank, lexemes_mark mark]
  refine alike.along rfl taken fun gap front after blank stands => ?_
  cases stands
  exact yields_expect gap blank (not_blank_of_isMark mark)

theorem follows_expect {c : Char} (mark : isMark c = true) : Follows most (expect c) (expect c) :=
  follows_of_along fun alike _ _ run => expect_along mark alike run

/-- The token without quotes that lies before a scanner, if it is the next token. -/
theorem nextToken_eq (s : Scanner) :
    nextToken s = match lexemes s.rest with
      | .bare t :: _ => t
      | _ => [] := by
  obtain ⟨offset, rest, closers⟩ := s
  cases tokens : lexemes rest with
  | nil =>
    have blank := all_isBlank_of_lexemes tokens
    have none : nextToken ⟨offset, rest ++ ([] ++ []), closers⟩ = [] := nextToken_append rest blank rfl nofun stops_nil
    rwa [List.append_nil, List.append_nil] at none
  | cons l ls =>
    obtain ⟨gap, front, after, rfl, blank, stands, -⟩ := stands_of_lexemes tokens
    have none : ∀ {text : List Char}, front ++ after = text → Stops text →
        nextToken ⟨offset, gap ++ (front ++ after), closers⟩ = [] := by
      rintro _ rfl stops
      have plain : ([] : List Char).all (!isDelimiter ·) = true := rfl
      exact nextToken_append gap blank plain stands.solid stops
    cases stands with
    | mark mark => exact none rfl (stops_cons (isDelimiter_of_isMark mark))
    | bare token stops => exact nextToken_append gap blank token.2 token.solid stops
    | quoted => exact none rfl (stops_cons (by decide))
    | unended => exact none rfl (stops_cons (by decide))

theorem Alike.nextToken {s t : Scanner} (h : Alike most s t) : nextToken s = nextToken t := by
  rw [nextToken_eq, nextToken_eq, h.tokens]

theorem stops_dropWhile (cs : List Char) : Stops (cs.dropWhile (!isDelimiter ·)) := by
  intro c hc
  have ends := List.head?_dropWhile_not (!isDelimiter ·) cs
  rw [hc] at ends
  simpa using ends

theorem follows_token : Follows most token token := by
  refine follows_of_along fun {s t} alike cs s' run => ?_
  rw [token_apply] at run
  split at run
  case isTrue => cases run
  case isFalse some =>
    cases run
    have isToken : IsToken (nextToken s) := ⟨fun none => some (List.isEmpty_iff.2 none), List.all_takeWhile⟩
    have split : nextToken s ++ (s.skipBlanks.advance (nextToken s).length).rest = s.skipBlanks.rest :=
      List.prefix_iff_eq_append.1 (List.takeWhile_prefix _)
    have stops : Stops (s.skipBlanks.advance (nextToken s).length).rest := by
      rw [nextToken, rest_advance_takeWhile]
      exact stops_dropWhile _
    have taken : lexemes s.rest = .bare (nextToken s) :: lexemes (s.skipBlanks.advance (nextToken s).length).rest := by
      rw [← lexemes_bare isToken stops, split, lexemes_skipBlanks]
    refine alike.along rfl taken fun gap front after blank stands => ?_
    cases stands with
    | bare token stops => exact yields_token gap blank token stops

theorem quoted_eq_ok {s s' : Scanner} {cs : List Char} : quoted s = .ok (cs, s') ↔
    ∃ m, expect '"' s = .ok ((), m) ∧ stringBody (m.rest.length + 1) m = .ok (cs, s') := by
  unfold quoted
  rw [Scan.bind_eq_ok_iff]
  constructor
  · rintro ⟨⟨⟩, m, quote, h⟩
    rw [Scan.get_bind, Scan.bind_eq_ok_iff] at h
    obtain ⟨⟨cs', m'⟩, n, body, h⟩ := h
    obtain ⟨body, rfl⟩ := Scan.liftM_eq_ok_iff.1 body
    cases h
    exact ⟨_, quote, body⟩
  · rintro ⟨m, quote, body⟩
    refine ⟨(), m, quote, ?_⟩
    rw [Scan.get_bind, Scan.bind_eq_ok_iff]
    exact ⟨(cs, s'), m, Scan.liftM_eq_ok_iff.2 ⟨body, rfl⟩, rfl⟩

theorem follows_quoted : Follows most quoted quoted := by
  refine follows_of_along fun {s t} alike cs s' run => ?_
  obtain ⟨_, quote, body⟩ := quoted_eq_ok.1 run
  obtain ⟨gap, rest, blank, text, rfl⟩ := expect_eq_ok quote
  obtain ⟨raw, after, rfl, spells, rfl⟩ := exists_of_stringBody body
  have taken : lexemes s.rest = .quoted raw :: lexemes after := by
    rw [text, lexemes_blank blank, lexemes_quoted spells.inner]
  refine alike.along rfl taken fun gap front after blank stands => ?_
  cases stands
  rw [List.cons_append, List.append_assoc]
  have quote : Yields (expect '"') ⟨t.offset, gap ++ '"' :: (raw ++ '"' :: after), t.closers⟩ () _ _ :=
    yields_expect gap blank (by decide)
  obtain ⟨offset', quote⟩ := quote
  have enough : raw.length < (raw ++ '"' :: after).length + 1 := by
    rw [List.length_append]
    omega
  exact ⟨_, quoted_eq_ok.2 ⟨_, quote, stringBody_of_spells spells _ offset' after t.closers enough⟩⟩

/-!
## Brackets
-/

theorem follows_openBracket {first last : Char} (mark : isMark first = true) (mark' : isMark last = true) :
    Follows most (openBracket first last) (openBracket first last) := by
  refine (follows_expect mark).bind fun _ => ⟨fun {s t} alike u s' run => ?_⟩
  cases run
  refine ⟨_, rfl, alike.tokens, congrArg (last :: ·) alike.closers, ?_, alike.few⟩
  exact List.forall_mem_cons.2 ⟨mark', alike.marks⟩

theorem follows_closeBracket : Follows most closeBracket closeBracket := by
  refine ⟨fun {s t} alike u s' run => ?_⟩
  unfold closeBracket at run ⊢
  rw [Scan.get_bind] at run ⊢
  cases owed : s.closers with
  | nil =>
    rw [owed] at run
    cases run
  | cons last closers =>
    rw [owed] at run
    rw [← alike.closers, owed]
    have marks := alike.marks
    rw [← alike.closers, owed, List.forall_mem_cons] at marks
    have alike' : Alike most { s with closers } { t with closers } := ⟨alike.tokens, rfl, marks.2, alike.few⟩
    exact (follows_expect marks.1).follow alike' run

theorem peek_get_bind (f : Option Char → Scanner → Scan Bool) (s : Scanner) :
    (do f (← peek) (← get)) s = f s.skipBlanks.rest.head? s.skipBlanks s.skipBlanks := rfl

theorem more_of_comma {s : Scanner} (comma : s.skipBlanks.rest.head? = some ',') :
    more s = .ok (true, s.skipBlanks.advance 1) := by
  rw [more, peek_get_bind, comma]
  rfl

theorem more_of_not_comma {s : Scanner} (comma : s.skipBlanks.rest.head? ≠ some ',') : more s =
    if s.skipBlanks.rest.head?.isSome && s.skipBlanks.rest.head? == s.closers.head? then .ok (false, s.skipBlanks)
    else .error (s.skipBlanks.fault (.expectedSeparator (s.skipBlanks.rest.head?.map firstByte))) := by
  have closes : more s = (if s.skipBlanks.rest.head?.isSome && s.skipBlanks.rest.head? == s.closers.head? then
      return false else failWith (.expectedSeparator (s.skipBlanks.rest.head?.map firstByte)) : Scan Bool)
      s.skipBlanks := by
    have same : s.skipBlanks.closers = s.closers := rfl
    rw [more, peek_get_bind, same]
    generalize s.skipBlanks.rest.head? = found at comma ⊢
    cases found with
    | none => rfl
    | some c => simp
  rw [closes]
  split <;> rfl

/-- A comma is a token, so that one token less lies behind it. -/
theorem more_along {s t s' : Scanner} {b : Bool} (alike : Alike most s t) (run : more s = .ok (b, s')) :
    ∃ t', more t = .ok (b, t') ∧ Alike most s' t' ∧ (b = true → ∃ fewer, most = fewer + 1 ∧ Alike fewer s' t') := by
  by_cases comma : s.skipBlanks.rest.head? = some ','
  · have comma' : t.skipBlanks.rest.head? = some ',' := alike.head? ▸ comma
    rw [more_of_comma comma] at run
    cases run
    have expected : expect ',' s = .ok ((), s.skipBlanks.advance 1) := by rw [expect_apply, if_pos comma]
    obtain ⟨t', fewer, passed, rfl, alike'⟩ := expect_along (by decide) alike expected
    rw [expect_apply, if_pos comma'] at passed
    cases passed
    exact ⟨_, more_of_comma comma', alike'.mono (Nat.le_succ fewer), fun _ => ⟨fewer, rfl, alike'⟩⟩
  · have comma' : t.skipBlanks.rest.head? ≠ some ',' := alike.head? ▸ comma
    rw [more_of_not_comma comma] at run
    split at run
    case isTrue closes =>
      cases run
      rw [more_of_not_comma comma', ← alike.head?, ← alike.closers, if_pos closes]
      exact ⟨t.skipBlanks, rfl, alike.skipBlanks, nofun⟩
    case isFalse => cases run

/-- A character completes no more tokens than it takes from those begun and begins itself. -/
theorem length_completed_le (p : Place) (c : Char) :
    (p.completed c).length + (p.next c).left.length ≤ 1 + p.left.length := by
  have marks : (Lexeme.marks c).length + (Place.first c).left.length ≤ 1 := by
    unfold Lexeme.marks Place.first
    by_cases quote : c = '"'
    · subst quote
      decide
    · rw [if_neg quote]
      by_cases delimiter : isDelimiter c = true
      · rw [if_pos delimiter]
        split <;> simp [Place.left]
      · rw [if_neg delimiter, isMark_of_plain (Bool.not_eq_true _ ▸ delimiter)]
        simp [Place.left]
  cases p with
  | between => exact marks
  | bare run =>
    simp only [Place.completed, Place.next]
    split
    · rw [List.length_cons]
      show _ ≤ 1 + 1
      omega
    · simp [Place.left]
  | quoted run =>
    simp only [Place.completed, Place.next]
    split
    · simp [Place.left]
    · split <;> simp [Place.left]
  | escape run => simp [Place.completed, Place.next, Place.left]

theorem length_lexemesFrom_le : ∀ (cs : List Char) (p : Place), (lexemesFrom p cs).length ≤ cs.length + p.left.length
  | [], p => Nat.le_add_left _ _
  | c :: cs, p => by
    have rest := length_lexemesFrom_le cs (p.next c)
    have step := length_completed_le p c
    rw [lexemesFrom, List.length_append, List.length_cons]
    omega

/-- A text has no more tokens than characters. -/
theorem length_lexemes_lt_fuel (s : Scanner) : (lexemes s.rest).length < s.fuel :=
  Nat.lt_succ_of_le (length_lexemesFrom_le s.rest .between)

section Elements

variable {element element' : Nat → Scan α}

theorem follows_elementsFrom (h : ∀ most count, Follows most (element count) (element' count)) :
    ∀ {fuel fuel' count most : Nat}, most < fuel' →
      Follows most (elementsFrom element fuel count) (elementsFrom element' fuel' count)
  | 0, _, _, _, _ => follows_failWith _
  | _ + 1, 0, _, _, enough => absurd enough (Nat.not_lt_zero _)
  | fuel + 1, fuel' + 1, count, most, enough => by
    rw [elementsFrom, elementsFrom]
    refine (h most (count + 1)).bind fun first => ⟨fun {s t} alike as s' run => ?_⟩
    obtain ⟨b, m, further, run⟩ := Scan.bind_eq_ok_iff.1 run
    obtain ⟨m', further', alike', behind⟩ := more_along alike further
    cases b with
    | false =>
      cases run
      exact ⟨m', Scan.bind_eq_ok_iff.2 ⟨false, m', further', rfl⟩, alike'⟩
    | true =>
      obtain ⟨most, rfl, fewer⟩ := behind rfl
      have rest : Follows most (do return first :: (← elementsFrom element fuel (count + 1)))
          (do return first :: (← elementsFrom element' fuel' (count + 1))) :=
        (follows_elementsFrom h (by omega)).bind fun _ => follows_pure _
      obtain ⟨t', run', alike'⟩ := rest.follow fewer run
      exact ⟨t', Scan.bind_eq_ok_iff.2 ⟨true, m', further', run'⟩, alike'.mono (Nat.le_succ most)⟩

/-- The closing bracket, and the answer. -/
theorem follows_close (a : α) : Follows most (do closeBracket; return a) (do closeBracket; return a) :=
  follows_closeBracket.bind fun _ => follows_pure a

theorem follows_elements (h : ∀ most count, Follows most (element count) (element' count)) :
    Follows most (elements element) (elements element') := by
  refine (follows_openBracket (by decide) (by decide)).bind fun _ => follows_peek.bind fun found => ?_
  by_cases closes : found = some ']'
  · simp only [if_pos closes]
    exact (follows_pure []).bind follows_close
  · simp only [if_neg closes]
    refine ⟨fun {s t} alike as s' run => ?_⟩
    rw [Scan.get_bind] at run ⊢
    -- as many tokens as lie before the other scanner are fewer than it has characters
    have exact : Alike (lexemes t.rest).length s t := ⟨alike.tokens, alike.closers, alike.marks, Nat.le_refl _⟩
    have read : Follows _ (elementsFrom element s.fuel 0) (elementsFrom element' t.fuel 0) :=
      follows_elementsFrom h (length_lexemes_lt_fuel t)
    obtain ⟨t', run', alike'⟩ := (read.bind follows_close).follow exact run
    exact ⟨t', run', alike'.mono alike.few⟩

end Elements

theorem follows_parts {first last : Char} (mark : isMark first = true) (mark' : isMark last = true)
    {read read' : β → Scan α} {bs : List β} (h : ∀ b ∈ bs, Follows most (read b) (read' b)) :
    Follows most (parts first last (bs.map read)) (parts first last (bs.map read')) := by
  refine (follows_openBracket mark mark').bind fun _ => ?_
  cases bs with
  | nil => exact (follows_pure []).bind follows_close
  | cons b bs =>
    obtain ⟨head, tail⟩ := List.forall_mem_cons.1 h
    refine head.bind fun a => ?_
    refine Follows.bind ?_ fun as => (follows_pure _).bind follows_close
    rw [List.mapM_map, List.mapM_map]
    exact Follows.mapM fun b hb => (follows_expect (by decide)).bind fun _ => tail b hb

/-!
## Values
-/

theorem follows_leaf (type : LeafType) : Follows most (readLeaf type) (readLeaf type) := by
  cases type with
  | text => exact follows_quoted.bind fun _ => follows_pure _
  | _ => exact follows_token.bind fun _ => follows_liftM id

variable {S : Schema} {L L' : Limits}

theorem follows_number (le : L ≤ L') (count : Nat) : Follows most (readNumber L count) (readNumber L' count) := by
  refine follows_token.bind fun token => ?_
  cases Number.parse? token with
  | none => exact follows_failWith _
  | some n => exact (follows_liftM (Limits.checkCount_mono le)).bind fun _ => follows_pure n

theorem follows_buffer (le : L ≤ L') : Follows most (readBuffer L) (readBuffer L') := by
  refine follows_token.bind fun name => ?_
  dsimp only
  cases ScalarType.ofName? (String.ofList name) with
  | none => exact follows_failWith _
  | some type => exact (follows_elements fun _ => follows_number le).bind fun _ => follows_liftM id

theorem follows_value (le : L ≤ L') : ∀ {room room' most : Nat}, room ≤ room' → ∀ shape,
    Follows most (readValue S L room shape) (readValue S L' room' shape)
  | 0, _, _, _, _ => follows_throw _
  | _ + 1, 0, _, more, _ => absurd more (Nat.not_succ_le_zero _)
  | room + 1, room' + 1, most, more, shape => by
    have ih : ∀ {most} shape, Follows most (readValue S L room shape) (readValue S L' room' shape) := fun shape =>
      follows_value le (Nat.le_of_succ_le_succ more) shape
    cases shape with
    | leaf type => exact (follows_leaf type).map _
    | enum table initial => exact follows_token.bind fun _ => (follows_liftM id).bind fun _ => follows_pure _
    | record name =>
      refine (follows_parts (by decide) (by decide) fun f _ => ?_).map _
      exact (ih f.shape).bind fun _ => follows_pure _
    | tuple elements => exact (follows_parts (by decide) (by decide) fun element _ => ih element).map _
    | vector xs => exact (follows_parts (by decide) (by decide) fun _ _ => ih _).map _
    | numbers type =>
      refine (follows_elements fun most count => ?_).map _
      refine (follows_liftM (Limits.checkCount_mono le)).bind fun _ => ?_
      by_cases none : room = 0
      · rw [if_pos none]
        exact ⟨fun _ _ _ run => nomatch run⟩
      · rw [if_neg none, if_neg (by omega)]
        exact follows_token.bind fun _ => follows_liftM id
    | sequence element =>
      exact (follows_elements fun most count =>
        (follows_liftM (Limits.checkCount_mono le)).bind fun _ => ih element).map _
    | buffer => exact (follows_buffer le).map _
    | optional content =>
      refine ⟨fun {s t} alike v s' run => ?_⟩
      rw [readValue, Scan.get_bind, alike.nextToken] at run
      rw [readValue, Scan.get_bind]
      split at run
      case isTrue null =>
        rw [if_pos null]
        have passed : Follows most (discard token) (discard token) := follows_token.map _
        exact (passed.bind fun _ => follows_pure _).follow alike run
      case isFalse null =>
        rw [if_neg null]
        exact ((ih content).bind fun _ => follows_pure _).follow alike run

end DebugText
end AssetRecords
