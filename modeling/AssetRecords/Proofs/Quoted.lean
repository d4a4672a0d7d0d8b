import AssetRecords.Text.Quoted
/-!
# Quoted — how characters stand in a string

A string in quotes is the spelling of its characters one by one, however its pieces are cut.
-/
namespace AssetRecords
namespace Quoted

/-- How a character stands in a string. -/
def spell (c : Char) : List Char := (escape? c).getD [c]

theorem flatten_body : ∀ run cs, (body run cs).flatten = run.reverse ++ cs.flatMap spell
  | run, [] => by simp [body]
  | run, c :: rest => by
    rw [body, List.flatMap_cons, spell]
    cases h : escape? c with
    | none => simp [flatten_body (c :: run) rest]
    | some e => simp [flatten_body [] rest]

theorem encode_eq (cs : List Char) : encode cs = '"' :: (cs.flatMap spell ++ ['"']) := by
  simp [encode, pieces, flatten_body]

theorem hexDigit?_digitChar : ∀ n < 16, hexDigit? (Nat.digitChar n) = some n := by decide

/-- What is read as a hexadecimal number has only digits. -/
theorem hexDigits_of_foldlM : ∀ {cs : List Char} {n m : Nat},
    cs.foldlM (fun n c => (hexDigit? c).map (16 * n + ·)) n = some m → ∀ c ∈ cs, hexDigit? c ≠ none
  | [], _, _, _, _, hc => nomatch hc
  | c :: cs, n, m, h, d, hd => by
    rw [List.foldlM_cons] at h
    obtain ⟨k, first, rest⟩ := Option.bind_eq_some_iff.1 h
    rcases List.mem_cons.1 hd with rfl | hd
    · intro none
      rw [none] at first
      cases first
    · exact hexDigits_of_foldlM rest d hd

/-- What is not escaped is neither a quote nor a backslash. -/
theorem plain_of_escape? {c : Char} (h : escape? c = none) : c ≠ '"' ∧ c ≠ '\\' := by
  constructor
  · rintro rfl
    exact absurd h (by decide)
  · rintro rfl
    exact absurd h (by decide)

/-- What is not escaped is no control character, and not the character that deletes. -/
theorem printable_of_escape? {c : Char} (h : escape? c = none) : 0x20 ≤ c.toNat ∧ c.toNat ≠ 0x7f := by
  unfold escape? at h
  split at h
  case h_8 =>
    split at h
    · cases h
    · omega
  all_goals cases h

theorem toNat_of_escape? {c : Char} (h : escape? c = none) : 0x20 ≤ c.toNat := (printable_of_escape? h).1

/-- An escape is one of two characters, or the number of a control character in four digits. -/
theorem escape?_eq_some {c : Char} {e : List Char} (h : escape? c = some e) :
    (∃ x, e = ['\\', x] ∧ x ≠ 'u' ∧ unescape? x = some c) ∨
      ∃ m n, m < 16 ∧ n < 16 ∧ c.toNat = 16 * m + n ∧ e = ['\\', 'u', '0', '0', Nat.digitChar m, Nat.digitChar n] := by
  unfold escape? at h
  split at h
  case h_8 =>
    split at h
    · rename_i control
      cases h
      exact .inr ⟨c.toNat / 16, c.toNat % 16, by omega, by omega, by omega, rfl⟩
    · cases h
  all_goals
    cases h
    exact .inl ⟨_, rfl, by decide, rfl⟩

theorem spell_ne_nil (c : Char) : spell c ≠ [] := by
  rw [spell]
  cases h : escape? c with
  | none => exact List.cons_ne_nil _ _
  | some e =>
    rcases escape?_eq_some h with ⟨x, rfl, -⟩ | ⟨m, n, -, -, -, rfl⟩
    · exact List.cons_ne_nil _ _
    · exact List.cons_ne_nil _ _

theorem length_le_flatMap_spell : ∀ cs : List Char, cs.length ≤ (cs.flatMap spell).length
  | [] => Nat.le_refl _
  | c :: rest => by
    have first := List.length_pos_iff.2 (spell_ne_nil c)
    have := length_le_flatMap_spell rest
    rw [List.flatMap_cons, List.length_append, List.length_cons]
    omega

end Quoted
end AssetRecords
