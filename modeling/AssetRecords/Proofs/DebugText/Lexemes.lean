import AssetRecords.Proofs.DebugText.Scanner
/-!
# Lexemes — the tokens of a text

A text is cut into brackets and commas, strings in their quotes and text without quotes; blanks keep those apart and are
none of them.  The cutting is one run from the left, which at every position knows whether it is within a string or
within text without quotes, and so knows where a blank may be put (`Apart`).
-/
namespace AssetRecords
namespace DebugText

/-- A token: a bracket or comma, what stands between two quotes, text without quotes, or what stands behind a quote that
has no other to it. -/
inductive Lexeme where
  | mark (c : Char)
  | quoted (raw : List Char)
  | bare (cs : List Char)
  | unended (raw : List Char)
  deriving DecidableEq

/-- Where in a text a position is.  Within a token it knows the characters of that token before it, the last one
first. -/
inductive Place where
  | between
  | bare (run : List Char)
  | quoted (run : List Char)
  | escape (run : List Char)
  deriving DecidableEq

def isMark (c : Char) : Bool := isDelimiter c && !Text.isBlank c && c != '"'

def Lexeme.marks (c : Char) : List Lexeme := if isMark c then [.mark c] else []

namespace Place

def first (c : Char) : Place := if c = '"' then quoted [] else if isDelimiter c then between else bare [c]

def next : Place → Char → Place
  | between, c => first c
  | bare run, c => if isDelimiter c then first c else bare (c :: run)
  | quoted run, c => if c = '"' then between else if c = '\\' then escape (c :: run) else quoted (c :: run)
  | escape run, c => quoted (c :: run)

/-- The tokens that a character completes. -/
def completed : Place → Char → List Lexeme
  | between, c => Lexeme.marks c
  | bare run, c => if isDelimiter c then .bare run.reverse :: Lexeme.marks c else []
  | quoted run, c => if c = '"' then [.quoted run.reverse] else []
  | escape _, _ => []

/-- The token that the end of the text leaves. -/
def left : Place → List Lexeme
  | between => []
  | bare run => [.bare run.reverse]
  | quoted run | escape run => [.unended run.reverse]

end Place

def lexemesFrom (p : Place) : List Char → List Lexeme
  | [] => p.left
  | c :: rest => p.completed c ++ lexemesFrom (p.next c) rest

/-- The tokens of a text. -/
def lexemes : List Char → List Lexeme := lexemesFrom .between

def placeBehind (front : List Char) : Place := front.foldl Place.next .between

/-- The position between two parts of a text is neither within a string nor within text without quotes. -/
def Apart (front rest : List Char) : Prop :=
  match placeBehind front with
  | .between => True
  | .bare _ => Stops rest
  | .quoted _ | .escape _ => False

/-!
## Cutting
-/

/-- What stands in front of a position is cut the same way whatever stands behind it. -/
theorem exists_lexemesFrom_append : ∀ (front : List Char) (p : Place), ∃ done, ∀ rest,
    lexemesFrom p (front ++ rest) = done ++ lexemesFrom (front.foldl Place.next p) rest
  | [], _ => ⟨[], fun _ => rfl⟩
  | c :: front, p => by
    obtain ⟨done, h⟩ := exists_lexemesFrom_append front (p.next c)
    refine ⟨p.completed c ++ done, fun rest => ?_⟩
    rw [List.cons_append, lexemesFrom, h, List.append_assoc, List.foldl_cons]

theorem isDelimiter_of_isBlank {c : Char} (h : Text.isBlank c = true) : isDelimiter c = true := by
  rw [isDelimiter, h]
  rfl

theorem quote_not_blank {c : Char} (h : Text.isBlank c = true) : c ≠ '"' := by
  rintro rfl
  exact absurd h (by decide)

theorem lexemes_cons_blank {c : Char} (h : Text.isBlank c = true) (rest : List Char) :
    lexemes (c :: rest) = lexemes rest := by
  have unmarked : isMark c = false := by simp [isMark, h]
  simp [lexemes, lexemesFrom, Place.completed, Lexeme.marks, unmarked, Place.next, Place.first, quote_not_blank h,
    isDelimiter_of_isBlank h]

theorem lexemes_blank : ∀ {gap : List Char}, gap.all Text.isBlank = true → ∀ rest, lexemes (gap ++ rest) = lexemes rest
  | [], _, _ => rfl
  | c :: gap, h, rest => by
    rw [List.all_cons, Bool.and_eq_true] at h
    rw [List.cons_append, lexemes_cons_blank h.1, lexemes_blank h.2]

theorem isDelimiter_of_isMark {c : Char} (h : isMark c = true) : isDelimiter c = true := by
  rw [isMark, Bool.and_eq_true, Bool.and_eq_true] at h
  exact h.1.1

theorem not_blank_of_isMark {c : Char} (h : isMark c = true) : Text.isBlank c = false := by
  rw [isMark, Bool.and_eq_true, Bool.and_eq_true, Bool.not_eq_true'] at h
  exact h.1.2

theorem lexemes_mark {c : Char} (h : isMark c = true) (rest : List Char) :
    lexemes (c :: rest) = .mark c :: lexemes rest := by
  have quote : c ≠ '"' := by
    rintro rfl
    exact absurd h (by decide)
  simp [lexemes, lexemesFrom, Place.completed, Lexeme.marks, h, Place.next, Place.first, quote, isDelimiter_of_isMark h]

/-- Text without quotes ends where a delimiter follows. -/
theorem lexemesFrom_bare (run : List Char) {rest : List Char} (h : Stops rest) :
    lexemesFrom (.bare run) rest = .bare run.reverse :: lexemes rest := by
  cases rest with
  | nil => rfl
  | cons c rest => simp [lexemes, lexemesFrom, Place.completed, Place.next, h c rfl]

theorem lexemesFrom_bare_append : ∀ {cs : List Char}, cs.all (!isDelimiter ·) = true → ∀ (run rest : List Char),
    lexemesFrom (.bare run) (cs ++ rest) = lexemesFrom (.bare (cs.reverse ++ run)) rest
  | [], _, _, _ => rfl
  | c :: cs, h, run, rest => by
    rw [List.all_cons, Bool.and_eq_true, Bool.not_eq_true'] at h
    simp [lexemesFrom, Place.completed, Place.next, h.1, lexemesFrom_bare_append h.2]

theorem not_quote_of_plain {c : Char} (h : isDelimiter c = false) : c ≠ '"' := by
  rintro rfl
  exact absurd h (by decide)

theorem isMark_of_plain {c : Char} (h : isDelimiter c = false) : isMark c = false := by rw [isMark, h]; rfl

theorem lexemes_bare {t : List Char} (h : IsToken t) {after : List Char} (stops : Stops after) :
    lexemes (t ++ after) = .bare t :: lexemes after := by
  obtain ⟨some, plain⟩ := h
  cases t with
  | nil => exact absurd rfl some
  | cons c cs =>
    rw [List.all_cons, Bool.and_eq_true, Bool.not_eq_true'] at plain
    have first : lexemes (c :: (cs ++ after)) = lexemesFrom (.bare [c]) (cs ++ after) := by
      simp [lexemes, lexemesFrom, Place.completed, Lexeme.marks, isMark_of_plain plain.1, Place.next, Place.first,
        not_quote_of_plain plain.1, plain.1]
    rw [List.cons_append, first, lexemesFrom_bare_append plain.2, lexemesFrom_bare _ stops]
    simp

/-- What stands within a string, none of its quotes being bare. -/
def Inner (raw : List Char) : Prop :=
  ∀ run rest, lexemesFrom (.quoted run) (raw ++ rest) = lexemesFrom (.quoted (raw.reverse ++ run)) rest

theorem lexemes_quote (rest : List Char) : lexemes ('"' :: rest) = lexemesFrom (.quoted []) rest := rfl

theorem lexemes_quoted {raw : List Char} (h : Inner raw) (after : List Char) :
    lexemes ('"' :: (raw ++ '"' :: after)) = .quoted raw :: lexemes after := by
  rw [lexemes_quote, h]
  simp [lexemesFrom, Place.completed, Place.next, lexemes]

/-- **A blank at a position between tokens is no token.** -/
theorem lexemes_insert {front rest gap : List Char} (apart : Apart front rest) (blank : gap.all Text.isBlank = true) :
    lexemes (front ++ (gap ++ rest)) = lexemes (front ++ rest) := by
  obtain ⟨done, cut⟩ := exists_lexemesFrom_append front .between
  show lexemesFrom _ _ = lexemesFrom _ _
  rw [cut, cut]
  congr 1
  show lexemesFrom (placeBehind front) _ = lexemesFrom (placeBehind front) _
  unfold Apart at apart
  split at apart
  case h_1 place =>
    rw [place]
    exact lexemes_blank blank rest
  case h_2 run place =>
    have stops : Stops (gap ++ rest) := by
      cases gap with
      | nil => exact apart
      | cons c gap =>
        rw [List.all_cons, Bool.and_eq_true] at blank
        exact stops_cons (isDelimiter_of_isBlank blank.1)
    rw [place, lexemesFrom_bare run stops, lexemesFrom_bare run apart, lexemes_blank blank]
  case h_3 => exact apart.elim
  case h_4 => exact apart.elim

/-!
## The first token of a text
-/

/-- How a token stands in a text: its characters, and what is behind it. -/
inductive Lexeme.Stands : Lexeme → (front after : List Char) → Prop where
  | mark {c : Char} {after : List Char} : isMark c = true → Stands (.mark c) [c] after
  | bare {t after : List Char} : IsToken t → Stops after → Stands (.bare t) t after
  | quoted {raw after : List Char} : Stands (.quoted raw) ('"' :: (raw ++ ['"'])) after
  | unended {raw : List Char} : Stands (.unended raw) ('"' :: raw) []

def Lexeme.firstChar : Lexeme → Option Char
  | mark c => some c
  | quoted _ | unended _ => some '"'
  | bare cs => cs.head?

theorem Lexeme.Stands.head? {l : Lexeme} {front after : List Char} (h : l.Stands front after) :
    (front ++ after).head? = l.firstChar := by
  cases h with
  | bare token =>
    obtain ⟨c, cs, rfl⟩ := List.exists_cons_of_ne_nil token.1
    rfl
  | _ => rfl

theorem Lexeme.Stands.solid {l : Lexeme} {front after : List Char} (h : l.Stands front after) (c : Char)
    (hc : (front ++ after).head? = some c) : Text.isBlank c = false := by
  cases h with
  | mark mark =>
    cases hc
    exact not_blank_of_isMark mark
  | bare token => exact token.solid c hc
  | quoted =>
    cases hc
    decide
  | unended =>
    cases hc
    decide

/-- The position behind a quote is within a string up to the next quote that no backslash escapes. -/
theorem lexemesFrom_quoted : ∀ (rest : List Char) {run : List Char} {p : Place}, p = .quoted run ∨ p = .escape run →
    ∃ raw, (∃ after, rest = raw ++ '"' :: after ∧ lexemesFrom p rest = .quoted (run.reverse ++ raw) :: lexemes after) ∨
      (rest = raw ∧ lexemesFrom p rest = [.unended (run.reverse ++ raw)])
  | [], run, p, place => by
    refine ⟨[], .inr ⟨rfl, ?_⟩⟩
    rw [List.append_nil]
    rcases place with rfl | rfl <;> rfl
  | c :: rest, run, p, place => by
    -- a character that does not end the string goes to the run
    have onward : ∀ {p' : Place}, p' = .quoted (c :: run) ∨ p' = .escape (c :: run) →
        lexemesFrom p (c :: rest) = lexemesFrom p' rest →
        ∃ raw, (∃ after, c :: rest = raw ++ '"' :: after ∧
            lexemesFrom p (c :: rest) = .quoted (run.reverse ++ raw) :: lexemes after) ∨
          (c :: rest = raw ∧ lexemesFrom p (c :: rest) = [.unended (run.reverse ++ raw)]) := by
      intro p' place' step
      rw [step]
      obtain ⟨raw, ⟨after, rfl, cut⟩ | ⟨rfl, cut⟩⟩ := lexemesFrom_quoted rest place'
      · exact ⟨c :: raw, .inl ⟨after, rfl, by simp [cut]⟩⟩
      · exact ⟨c :: rest, .inr ⟨rfl, by simp [cut]⟩⟩
    rcases place with rfl | rfl
    · by_cases quote : c = '"'
      · subst quote
        exact ⟨[], .inl ⟨rest, rfl, by rw [List.append_nil]; rfl⟩⟩
      · by_cases backslash : c = '\\'
        · subst backslash
          exact onward (.inr rfl) rfl
        · exact onward (.inl rfl) (by simp [lexemesFrom, Place.completed, Place.next, quote, backslash])
    · exact onward (.inl rfl) rfl

/-- What does not begin with a blank begins with a token. -/
theorem exists_stands {c : Char} (solid : Text.isBlank c = false) (rest : List Char) :
    ∃ l front after, c :: rest = front ++ after ∧ Lexeme.Stands l front after ∧
      lexemes (c :: rest) = l :: lexemes after := by
  by_cases mark : isMark c = true
  · exact ⟨.mark c, [c], rest, rfl, .mark mark, lexemes_mark mark rest⟩
  by_cases quote : c = '"'
  · subst quote
    obtain ⟨raw, ⟨after, rfl, cut⟩ | ⟨rfl, cut⟩⟩ := lexemesFrom_quoted rest (.inl rfl)
    · exact ⟨.quoted raw, '"' :: (raw ++ ['"']), after, by simp, .quoted, cut⟩
    · exact ⟨.unended rest, '"' :: rest, [], by simp, .unended, cut⟩
  · -- what is left is text without quotes, up to the next delimiter
    have plain : isDelimiter c = false := by simpa [isMark, solid, quote] using mark
    have token : IsToken ((c :: rest).takeWhile (!isDelimiter ·)) := ⟨by simp [plain], List.all_takeWhile⟩
    have stops : Stops ((c :: rest).dropWhile (!isDelimiter ·)) := by
      intro d hd
      have ends := List.head?_dropWhile_not (!isDelimiter ·) (c :: rest)
      rw [hd] at ends
      simpa using ends
    have split : c :: rest = (c :: rest).takeWhile (!isDelimiter ·) ++ (c :: rest).dropWhile (!isDelimiter ·) :=
      List.takeWhile_append_dropWhile.symm
    exact ⟨_, _, _, split, .bare token stops, (congrArg lexemes split).trans (lexemes_bare token stops)⟩

/-- **The first token of a text stands behind blanks alone.** -/
theorem stands_of_lexemes {l : Lexeme} {ls : List Lexeme} : ∀ {rest : List Char}, lexemes rest = l :: ls →
    ∃ gap front after, rest = gap ++ (front ++ after) ∧ gap.all Text.isBlank = true ∧ l.Stands front after ∧
      lexemes after = ls
  | [], h => by cases h
  | c :: rest, h => by
    cases blank : Text.isBlank c with
    | true =>
      rw [lexemes_cons_blank blank] at h
      obtain ⟨gap, front, after, rfl, blanks, stands, behind⟩ := stands_of_lexemes h
      refine ⟨c :: gap, front, after, rfl, ?_, stands, behind⟩
      rw [List.all_cons, blank, blanks]
      rfl
    | false =>
      obtain ⟨_, front, after, text, stands, cut⟩ := exists_stands blank rest
      rw [cut] at h
      cases h
      exact ⟨[], front, after, text, rfl, stands, rfl⟩

/-- A text without tokens is blank. -/
theorem all_isBlank_of_lexemes : ∀ {rest : List Char}, lexemes rest = [] → rest.all Text.isBlank = true
  | [], _ => rfl
  | c :: rest, h => by
    cases blank : Text.isBlank c with
    | true =>
      rw [lexemes_cons_blank blank] at h
      rw [List.all_cons, blank, all_isBlank_of_lexemes h]
      rfl
    | false =>
      obtain ⟨_, _, _, _, _, cut⟩ := exists_stands blank rest
      rw [cut] at h
      cases h

end DebugText
end AssetRecords
