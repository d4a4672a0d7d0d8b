import AssetRecords.Proofs.DebugText.Following
/-!
# Whitespace — nothing but tokens decides what a text is read as

Two texts that are cut into the same tokens are read as the same values (`read_of_lexemes`), and blanks at a position
that is not within a token do not change how a text is cut.
-/
namespace AssetRecords
namespace DebugText

variable {S : Schema} {L L' : Limits} {shape : Shape} {v : Value} {text text' : String}

/-- A text is read as a value when no token is left behind the value. -/
theorem read_eq_ok_iff : read S L shape text = .ok v ↔
    ∃ s, readValue S L (L.maxDepth + 1) shape (.start text.toList) = .ok (v, s) ∧ lexemes s.rest = [] := by
  have ended : ∀ s : Scanner, s.skipBlanks.rest.isEmpty = true ↔ lexemes s.rest = [] := by
    intro s
    rw [List.isEmpty_iff, ← lexemes_skipBlanks]
    refine ⟨fun none => by rw [none]; rfl, fun none => ?_⟩
    have unseen := head?_skipBlanks s
    rwa [← lexemes_skipBlanks, none, List.head?_nil, Option.bind_none, List.head?_eq_none_iff] at unseen
  unfold read
  rw [Except.bind_eq_ok_iff]
  constructor
  · rintro ⟨⟨w, s⟩, run, h⟩
    dsimp only at h
    split at h
    · rename_i none
      cases h
      exact ⟨s, run, (ended s).1 none⟩
    · cases h
  · rintro ⟨s, run, none⟩
    refine ⟨(v, s), run, ?_⟩
    dsimp only
    rw [if_pos ((ended s).2 none)]
    rfl

/-- What a text is read as, a text of the same tokens is read as under limits that admit as much. -/
theorem read_of_lexemes (le : L ≤ L') (same : lexemes text.toList = lexemes text'.toList)
    (h : read S L shape text = .ok v) : read S L' shape text' = .ok v := by
  obtain ⟨s, run, ended⟩ := read_eq_ok_iff.1 h
  have alike : Alike (lexemes text'.toList).length (.start text.toList) (.start text'.toList) :=
    ⟨same, rfl, nofun, Nat.le_refl _⟩
  obtain ⟨s', run', alike'⟩ := (follows_value le (Nat.succ_le_succ le.1) shape).follow alike run
  exact read_eq_ok_iff.2 ⟨s', run', alike'.tokens ▸ ended⟩

/-- **Whitespace between tokens is insignificant, on every input.**  Where a position of a text is neither within a
string nor within text without quotes, blanks that are put there change nothing: the text is read as a value exactly
when it was before.  What a text is read as depends on its tokens alone. -/
theorem read_insert_blanks (S : Schema) (L : Limits) (shape : Shape) :
    (∀ (text gap : String) (p : Nat), Apart (text.toList.take p) (text.toList.drop p) →
      gap.toList.all Text.isBlank = true → ∀ v,
      read S L shape (String.ofList (text.toList.take p ++ (gap.toList ++ text.toList.drop p))) = .ok v ↔
        read S L shape text = .ok v) ∧
    (∀ text text' : String, lexemes text.toList = lexemes text'.toList → ∀ v,
      read S L shape text = .ok v ↔ read S L shape text' = .ok v) := by
  have told : ∀ text text' : String, lexemes text.toList = lexemes text'.toList → ∀ v,
      read S L shape text = .ok v ↔ read S L shape text' = .ok v := fun text text' same v =>
    ⟨read_of_lexemes Limits.le_rfl same, read_of_lexemes Limits.le_rfl same.symm⟩
  refine ⟨fun text gap p apart blank v => told _ _ ?_ v, told⟩
  rw [String.toList_ofList, lexemes_insert apart blank, List.take_append_drop]

/-- A list of truth values with an em space and a line feed before its second comma. -/
theorem read_insert_blanks_list :
    Apart ("[true,false,true]".toList.take 11) ("[true,false,true]".toList.drop 11) ∧
    "\u2003\n".toList.all Text.isBlank = true ∧
    read {} {} (.sequence (.leaf .bool)) "[true,false\u2003\n,true]" =
      .ok (.sequence (.leaf .bool) [.leaf (.bool true), .leaf (.bool false), .leaf (.bool true)]) := by
  have apart : Apart ("[true,false,true]".toList.take 11) ("[true,false,true]".toList.drop 11) :=
    stops_cons (by decide)
  have blank : "\u2003\n".toList.all Text.isBlank = true := by decide
  exact ⟨apart, blank,
    ((read_insert_blanks {} {} (.sequence (.leaf .bool))).1 "[true,false,true]" "\u2003\n" 11 apart blank _).2 rfl⟩

end DebugText
end AssetRecords
