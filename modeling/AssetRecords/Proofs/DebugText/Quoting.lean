import AssetRecords.Proofs.DebugText.Following
/-!
# Quoting — the strings that debug text has

A string is read exactly where blanks, a quote, what the grammar of `Spells` allows and a closing quote stand, and it is
read up to that quote (`quoted_eq_ok_iff`).  The grammar is that of JSON with one form more: behind `\u` a plus sign may
take the place of the first of the four digits, since the number is read by a parser that allows a sign.  In a text
without `\u+` the four digits are all there is (`reads_the_grammar`).
-/
namespace AssetRecords
namespace DebugText

/-- Behind blanks stands a string in quotes, which is `cs`; `s'` is the scanner behind its closing quote. -/
def IsString (signs : Bool) (s : Scanner) (cs : List Char) (s' : Scanner) : Prop :=
  ∃ gap raw after, gap.all Text.isBlank = true ∧ s.rest = gap ++ '"' :: (raw ++ '"' :: after) ∧ Spells signs raw cs ∧
    s' = ⟨s.offset + (Utf8.encode (gap ++ '"' :: (raw ++ ['"']))).length, after, s.closers⟩

theorem size_quotes (gap raw : List Char) :
    Utf8.size (gap ++ '"' :: (raw ++ ['"'])) = Utf8.size (gap ++ ['"']) + Utf8.size (raw ++ ['"']) := by
  rw [← Utf8.size_append, List.append_assoc]
  rfl

/-- **A string is read exactly where the grammar has one**, signs allowed. -/
theorem quoted_eq_ok_iff {s s' : Scanner} {cs : List Char} : quoted s = .ok (cs, s') ↔ IsString true s cs s' := by
  rw [quoted_eq_ok]
  constructor
  · rintro ⟨m, quote, body⟩
    obtain ⟨gap, rest, blank, text, rfl⟩ := expect_eq_ok quote
    obtain ⟨raw, after, rfl, spells, rfl⟩ := exists_of_stringBody body
    refine ⟨gap, raw, after, blank, text, spells, ?_⟩
    rw [Utf8.length_encode, size_quotes, Nat.add_assoc]
  · rintro ⟨gap, raw, after, blank, text, spells, rfl⟩
    obtain ⟨offset, rest, closers⟩ := s
    cases text
    have enough : raw.length < (raw ++ '"' :: after).length + 1 := by
      rw [List.length_append]
      omega
    refine ⟨_, expect_append gap blank (by decide), ?_⟩
    rw [stringBody_of_spells spells _ _ after closers enough, Utf8.length_encode, size_quotes, Nat.add_assoc]

theorem Stands.allow {e : List Char} {c : Char} (h : Stands false e c) : Stands true e c := by
  cases h with
  | plain quote backslash => exact .plain quote backslash
  | escape known => exact .escape known
  | point four spelled => exact .point four spelled
  | signed allowed => cases allowed

theorem Spells.allow {raw cs : List Char} (h : Spells false raw cs) : Spells true raw cs := by
  induction h with
  | nil => exact .nil
  | cons first _ ih => exact .cons first.allow ih

/-- What stands without `\u+` has no sign in it. -/
theorem Stands.forbid {e : List Char} {c : Char} (h : Stands true e c) (unsigned : ¬ ['\\', 'u', '+'] <:+: e) :
    Stands false e c := by
  cases h with
  | plain quote backslash => exact .plain quote backslash
  | escape known => exact .escape known
  | point four spelled => exact .point four spelled
  | @signed ds => exact absurd (List.prefix_append ['\\', 'u', '+'] ds).isInfix unsigned

theorem Spells.forbid {raw cs : List Char} (h : Spells true raw cs) (unsigned : ¬ ['\\', 'u', '+'] <:+: raw) :
    Spells false raw cs := by
  induction h with
  | nil => exact .nil
  | @cons e t c cs first _ ih =>
    refine .cons (first.forbid fun sign => unsigned ?_) (ih fun sign => unsigned ?_)
    · exact sign.trans (List.prefix_append e t).isInfix
    · exact sign.trans (List.suffix_append e t).isInfix

/-- **The strings of debug text.**  A string is read exactly where blanks, a quote, a run of characters and escapes and
a closing quote stand, as the characters that these stand for, and up to the byte behind the closing quote.  Among the
escapes are those of four hexadecimal digits, and those of a plus sign and three.  Whatever the grammar without the
signs has is read; nothing else is where no plus sign stands behind `\u`. -/
theorem reads_the_grammar (s : Scanner) (cs : List Char) (s' : Scanner) :
    (quoted s = .ok (cs, s') ↔ IsString true s cs s') ∧ (IsString false s cs s' → quoted s = .ok (cs, s')) ∧
    (¬ ['\\', 'u', '+'] <:+: s.rest → quoted s = .ok (cs, s') → IsString false s cs s') := by
  refine ⟨quoted_eq_ok_iff, ?_, fun unsigned run => ?_⟩
  · rintro ⟨gap, raw, after, blank, text, spells, behind⟩
    exact quoted_eq_ok_iff.2 ⟨gap, raw, after, blank, text, spells.allow, behind⟩
  · obtain ⟨gap, raw, after, blank, text, spells, behind⟩ := quoted_eq_ok_iff.1 run
    refine ⟨gap, raw, after, blank, text, spells.forbid fun sign => unsigned ?_, behind⟩
    have inside : raw <:+: gap ++ ['"'] ++ raw ++ '"' :: after := ⟨gap ++ ['"'], '"' :: after, rfl⟩
    rw [text]
    simpa using sign.trans inside

/-- An accented letter in digits and an escaped slash, behind a blank and in front of another character. -/
theorem reads_the_grammar_letter :
    quoted ⟨2, " \"\\u00e9\\/\"x".toList, [')']⟩ = .ok (['é', '/'], ⟨13, ['x'], [')']⟩) ∧
      IsString false ⟨2, " \"\\u00e9\\/\"x".toList, [')']⟩ ['é', '/'] ⟨13, ['x'], [')']⟩ := by
  have run : quoted ⟨2, " \"\\u00e9\\/\"x".toList, [')']⟩ = .ok (['é', '/'], ⟨13, ['x'], [')']⟩) := rfl
  have unsigned : ¬ ['\\', 'u', '+'] <:+: [' ', '"', '\\', 'u', '0', '0', 'e', '9', '\\', '/', '"', 'x'] := by decide
  exact ⟨run, (reads_the_grammar _ _ _).2.2 unsigned run⟩

/-- **A plus sign is taken for a digit**: `\u+041` is read, and is no escape of four hexadecimal digits. -/
theorem plus_sign_read :
    ¬ ∀ (s : Scanner) (cs : List Char) (s' : Scanner), quoted s = .ok (cs, s') ↔ IsString false s cs s' := by
  intro claim
  have run : quoted ⟨0, "\"\\u+041\"".toList, []⟩ = .ok (['A'], ⟨8, [], []⟩) := rfl
  obtain ⟨gap, raw, after, blank, text, spells, -⟩ := (claim _ _ _).1 run
  have text : ['"', '\\', 'u', '+', '0', '4', '1', '"'] = gap ++ '"' :: (raw ++ '"' :: after) := text
  cases gap with
  | cons g gap =>
    obtain ⟨rfl, -⟩ := List.cons.inj text
    exact absurd (List.all_eq_true.1 blank '"' List.mem_cons_self) (by decide)
  | nil =>
    cases spells with
    | cons first _ =>
      cases first with
      | plain _ backslash =>
        simp only [List.nil_append, List.cons_append, List.cons.injEq] at text
        exact backslash text.2.1.symm
      | escape known =>
        simp only [List.nil_append, List.cons_append, List.cons.injEq] at text
        rw [← text.2.2.1] at known
        cases known
      | @point ds _ four spelled =>
        obtain ⟨a, b, c, d, rfl⟩ := List.length_eq_four.1 four
        simp only [List.nil_append, List.cons_append, List.cons.injEq] at text
        obtain ⟨-, -, -, rfl, rfl, rfl, rfl, -⟩ := text
        cases spelled
      | signed allowed => cases allowed

end DebugText
end AssetRecords
