import AssetRecords.Proofs.Number
import AssetRecords.Text.Blank
/-!
# Blank — texts without the blanks at their ends

A text that begins and ends with characters that are not blank is its own trimmed form, and which end is trimmed first
does not matter.
-/
namespace AssetRecords
namespace Text

theorem trimStart_cons (c : Char) (cs : List Char) :
    trimStart (c :: cs) = if isBlank c then trimStart cs else c :: cs := by
  unfold trimStart
  rw [List.dropWhile_cons]

theorem trimStart_of_solid {c : Char} (h : isBlank c = false) (cs : List Char) : trimStart (c :: cs) = c :: cs := by
  simp [trimStart_cons, h]

theorem trimEnd_append_of_solid {cs : List Char} {c : Char} (h : isBlank c = false) :
    trimEnd (cs ++ [c]) = cs ++ [c] := by
  simp [trimEnd, h]

theorem length_trimEnd_le (cs : List Char) : (trimEnd cs).length ≤ cs.length := by
  have shorter := (List.dropWhile_suffix (l := cs.reverse) isBlank).length_le
  rwa [List.length_reverse, ← List.length_reverse] at shorter

/-- What is in front of a text that is not all blank does not matter to its end. -/
theorem trimEnd_cons (c : Char) (cs : List Char) :
    trimEnd (c :: cs) = if trimEnd cs = [] ∧ isBlank c then [] else c :: trimEnd cs := by
  unfold trimEnd
  rw [List.reverse_cons, List.dropWhile_append]
  by_cases rest : cs.reverse.dropWhile isBlank = []
  · by_cases blank : isBlank c
    · simp [rest, blank]
    · simp [rest, blank]
  · simp [rest]

theorem trimEnd_append_cons {c : Char} (h : isBlank c = false) (cs : List Char) : ∀ front : List Char,
    trimEnd (front ++ c :: cs) = front ++ c :: trimEnd cs
  | [] => by simp [trimEnd_cons, h]
  | d :: front => by
    rw [List.cons_append, trimEnd_cons, trimEnd_append_cons h cs front]
    simp

theorem trimStart_trimEnd (cs : List Char) : trimStart (trimEnd cs) = trimEnd (trimStart cs) := by
  induction cs with
  | nil => rfl
  | cons c cs ih =>
    rw [trimEnd_cons, trimStart_cons]
    by_cases blank : isBlank c
    · by_cases rest : trimEnd cs = []
      · rw [rest] at ih
        simp [rest, blank, ← ih]
      · simp [rest, blank, trimStart_cons, ih]
    · simp [blank, trimStart_cons, trimEnd_cons]

theorem trimEnd_trimEnd (cs : List Char) : trimEnd (trimEnd cs) = trimEnd cs := by
  induction cs with
  | nil => rfl
  | cons c cs ih =>
    rw [trimEnd_cons]
    split
    · rfl
    · rename_i solid
      rw [trimEnd_cons, ih, if_neg solid]

/-- **Blanks that were taken off the end are not missed.** -/
theorem trim_trimEnd (cs : List Char) : trim (trimEnd cs) = trim cs := by
  rw [trim, trimStart_trimEnd, trimEnd_trimEnd, trim]

/-- A text without blanks is its own trimmed form. -/
theorem trim_of_solid {cs : List Char} (h : ∀ c ∈ cs, isBlank c = false) : trim cs = cs := by
  have start : trimStart cs = cs := by
    cases cs with
    | nil => rfl
    | cons c cs => exact trimStart_of_solid (h c List.mem_cons_self) cs
  rw [trim, start]
  clear start
  induction cs with
  | nil => rfl
  | cons c cs ih =>
    obtain ⟨here, rest⟩ := List.forall_mem_cons.1 h
    simp [trimEnd_cons, here, ih rest]

theorem isBlank_of_isNumeral {c : Char} (h : Decimal.isNumeral c = true) : isBlank c = false := by
  have ascii : ∀ n < 128, Decimal.isNumeral (Char.ofNat n) = true → isBlank (Char.ofNat n) = false := by decide
  rw [← Char.ofNat_toNat c] at h ⊢
  exact ascii _ (Decimal.toNat_lt_of_isNumeral (Char.ofNat_toNat c ▸ h)) h

/-- The text of a number has no blanks. -/
theorem trim_chars (s : Scalar) : trim s.chars = s.chars :=
  trim_of_solid fun c hc => isBlank_of_isNumeral (List.all_eq_true.1 s.isNumeral_chars.1 c hc)

end Text
end AssetRecords
