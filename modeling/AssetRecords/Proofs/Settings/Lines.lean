import AssetRecords.Proofs.Blank
import AssetRecords.Proofs.Fields
import AssetRecords.Settings.Reader
import AssetRecords.Settings.Writer
/-!
# Lines — what a line is taken for

A line that is written is taken for what it was written as, whatever the text behind its equals sign is: the key in front
of the sign decides (`readLine_assignment`, `readLine_header`).  Lines without line feeds are found again in the text
that they make up (`splitLines_flatMap`).
-/
namespace AssetRecords
namespace Settings

/-!
## Keys
-/

/-- A key that no line can hide: it has no equals sign and no line feed, no blanks at its ends, and it does not begin as
a comment or a header does. -/
structure SafeKey (key : String) : Prop where
  plain : '=' ∉ key.toList ∧ '\n' ∉ key.toList
  trimmed : Text.trim key.toList = key.toList
  first : ∀ c, key.toList.head? = some c → c ≠ ';' ∧ c ≠ '#' ∧ c ≠ '['

instance (key : String) : Decidable (SafeKey key) :=
  decidable_of_iff (('=' ∉ key.toList ∧ '\n' ∉ key.toList) ∧ Text.trim key.toList = key.toList ∧
      key.toList.head?.all (fun c => c != ';' && c != '#' && c != '[') = true) (by
    constructor
    · rintro ⟨plain, trimmed, first⟩
      refine ⟨plain, trimmed, fun c hc => ?_⟩
      rw [hc] at first
      simpa [and_assoc] using first
    · rintro ⟨plain, trimmed, first⟩
      refine ⟨plain, trimmed, ?_⟩
      cases hc : key.toList.head? with
      | none => rfl
      | some c => simpa [and_assoc] using first c hc)

/-- The first character of a line with a key in front of a text. -/
theorem SafeKey.exists_cons {key : String} (h : SafeKey key) (text : List Char) :
    ∃ c rest, key.toList ++ '=' :: text = c :: rest ∧ Text.isBlank c = false ∧ c ≠ ';' ∧ c ≠ '#' ∧ c ≠ '[' := by
  obtain ⟨-, trimmed, first⟩ := h
  cases chars : key.toList with
  | nil => exact ⟨'=', text, rfl, by decide, by decide, by decide, by decide⟩
  | cons c cs =>
    refine ⟨c, cs ++ '=' :: text, rfl, ?_, first c (by rw [chars]; rfl)⟩
    -- a blank in front would have been trimmed
    by_contra blank
    have shorter : (Text.trim (c :: cs)).length ≤ cs.length := by
      rw [Text.trim, Text.trimStart_cons, if_pos (by simpa using blank)]
      exact Nat.le_trans (Text.length_trimEnd_le _) (List.dropWhile_suffix _).length_le
    rw [← chars, trimmed, chars, List.length_cons] at shorter
    omega

/-!
## One line
-/

variable {S : Schema} {key : String} {s : State}

/-- A line with a text behind a key is trimmed at its end only. -/
theorem trim_assignment (h : SafeKey key) (text : List Char) :
    Text.trim (assignment key text) = key.toList ++ '=' :: Text.trimEnd text := by
  obtain ⟨c, rest, line, solid, -⟩ := h.exists_cons text
  rw [assignment, Text.trim, line, Text.trimStart_of_solid solid, ← line, Text.trimEnd_append_cons (by decide)]

theorem trim_header (key : String) : Text.trim (header key) = header key := by
  rw [header, Text.trim, List.cons_append, Text.trimStart_of_solid (by decide), ← List.cons_append,
    Text.trimEnd_append_of_solid (by decide)]

/-- Where a line `key=text` goes. -/
def State.take (offset : Nat) (key : String) (text : List Char) (s : State) : Except Error State :=
  match s.target with
  | .nowhere => .ok s
  | .root => (fun fields => { s with fields }) <$> assign offset key text s.fields
  | .block name =>
    (fun fields => { s with fields }) <$> Fields.update name (updateBlock (assign offset key text)) s.fields

/-- **A line with a text behind a key is taken for that**, whatever the text is. -/
theorem readLine_assignment (h : SafeKey key) (offset : Nat) (text : List Char) (s : State) :
    readLine S offset (Text.trim (assignment key text)) s = s.take offset key (Text.trim text) := by
  obtain ⟨c, rest, line, -, semicolon, hash, bracket⟩ := h.exists_cons (Text.trimEnd text)
  have equals : (c :: rest).contains '=' = true := by
    rw [← line]
    simp
  have front : ∀ d ∈ key.toList, (d != '=') = true := fun d hd => by
    rw [bne_iff_ne]
    rintro rfl
    exact h.plain.1 hd
  have before : (c :: rest).takeWhile (· != '=') = key.toList := by
    rw [← line, List.takeWhile_append_of_pos front, List.takeWhile_cons_of_neg (by decide), List.append_nil]
  have behind : ((c :: rest).dropWhile (· != '=')).drop 1 = Text.trimEnd text := by
    rw [← line, List.dropWhile_append_of_pos front, List.dropWhile_cons_of_neg (by decide)]
    rfl
  rw [trim_assignment h, line]
  unfold readLine
  split
  · rename_i none
    cases none
  · rename_i heq
    cases heq
    exact absurd rfl semicolon
  · rename_i heq
    cases heq
    exact absurd rfl hash
  · rename_i heq
    cases heq
    exact absurd rfl bracket
  · rw [if_pos equals, before, behind, h.trimmed, String.ofList_toList, Text.trim_trimEnd]
    rfl

/-- **A header is taken for the key that it holds.** -/
theorem readLine_header (h : SafeKey key) (offset : Nat) (s : State) :
    readLine S offset (Text.trim (header key)) s = turn S key s := by
  rw [trim_header, header, List.cons_append, readLine, if_pos List.getLast?_concat, List.dropLast_concat, h.trimmed,
    String.ofList_toList]

/-!
## Many lines
-/

theorem splitLines_append {line : List Char} (h : '\n' ∉ line) (rest : List Char) :
    splitLines (line ++ '\n' :: rest) = line :: splitLines rest := by
  induction line with
  | nil => rfl
  | cons c line ih =>
    rw [List.mem_cons, not_or] at h
    rw [List.cons_append, splitLines, if_neg (Ne.symm h.1), ih h.2]

/-- Lines without line feeds are found again in front of a text. -/
theorem splitLines_flatMap_append {lines : List (List Char)} (h : ∀ line ∈ lines, '\n' ∉ line) (rest : List Char) :
    splitLines (lines.flatMap (· ++ ['\n']) ++ rest) = lines ++ splitLines rest := by
  induction lines with
  | nil => rfl
  | cons line lines ih =>
    obtain ⟨here, others⟩ := List.forall_mem_cons.1 h
    rw [List.flatMap_cons, List.append_assoc, List.append_assoc, List.singleton_append, splitLines_append here,
      ih others, List.cons_append]

/-- **Lines without line feeds are found again in their text**, and an empty one behind the last line feed. -/
theorem splitLines_flatMap {lines : List (List Char)} (h : ∀ line ∈ lines, '\n' ∉ line) :
    splitLines (lines.flatMap (· ++ ['\n'])) = lines ++ [[]] := by
  have whole := splitLines_flatMap_append h []
  rwa [List.append_nil] at whole

/-- The offset behind lines. -/
def offsetBehind (offset : Nat) (lines : List (List Char)) : Nat :=
  lines.foldl (fun offset line => offset + Utf8.size line + 1) offset

theorem readLines_append (S : Schema) (offset : Nat) (before after : List (List Char)) (s : State) :
    readLines S offset (before ++ after) s =
      readLines S offset before s >>= readLines S (offsetBehind offset before) after := by
  induction before generalizing offset s with
  | nil => rfl
  | cons line before ih =>
    rw [List.cons_append, readLines, readLines, bind_assoc]
    congr 1
    funext s'
    rw [ih]
    rfl

end Settings
end AssetRecords
