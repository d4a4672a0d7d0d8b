import AssetRecords.Proofs.Settings.Outline
import AssetRecords.Proofs.Settings.RoundTrip
import AssetRecords.Proofs.Silence
import AssetRecords.Proofs.Utf8
/-!
# FirstFault — the line at which a text fails

A text that is not read fails at one of its lines (`exists_of_readLines_eq_error`).  The lines before it are read, the
line says something, and nothing behind it matters.  A fault of syntax carries the number of bytes in front of the line
(`speaks_of_readLine_eq_error`), whatever their characters and line ends are (`offsetBehind_eq`).
-/
namespace AssetRecords
namespace Settings

/-!
## The lines of a text
-/

/-- What may stand behind a line: nothing, or a line feed and anything. -/
def EndsLine (rest : List Char) : Prop := rest = [] ∨ ∃ after, rest = '\n' :: after

theorem exists_splitLines (cs : List Char) : ∃ line ls, splitLines cs = line :: ls := by
  unfold splitLines
  split
  · exact ⟨_, _, rfl⟩
  · split
    · exact ⟨_, _, rfl⟩
    · split
      · exact ⟨_, _, rfl⟩
      · exact ⟨_, _, rfl⟩

theorem splitLines_cons {c : Char} (h : c ≠ '\n') {rest line : List Char} {ls : List (List Char)}
    (behind : splitLines rest = line :: ls) : splitLines (c :: rest) = (c :: line) :: ls := by
  rw [splitLines, if_neg h, behind]

/-- A line stands at the start of its text, and the other lines behind its line feed. -/
theorem exists_of_splitLines_eq_cons : ∀ {cs line : List Char} {ls : List (List Char)}, splitLines cs = line :: ls →
    '\n' ∉ line ∧ ((ls = [] ∧ cs = line) ∨ ∃ rest, cs = line ++ '\n' :: rest ∧ splitLines rest = ls)
  | [], line, ls, h => by
    cases h
    exact ⟨nofun, .inl ⟨rfl, rfl⟩⟩
  | c :: cs, line, ls, h => by
    by_cases feed : c = '\n'
    · rw [splitLines, if_pos feed] at h
      cases h
      exact ⟨nofun, .inr ⟨cs, by rw [feed]; rfl, rfl⟩⟩
    · obtain ⟨first, others, behind⟩ := exists_splitLines cs
      rw [splitLines_cons feed behind] at h
      cases h
      obtain ⟨single, ⟨none, whole⟩ | ⟨rest, text, lines⟩⟩ := exists_of_splitLines_eq_cons behind
      · exact ⟨by simp [single, Ne.symm feed], .inl ⟨none, by rw [whole]⟩⟩
      · exact ⟨by simp [single, Ne.symm feed], .inr ⟨rest, by rw [text]; rfl, lines⟩⟩

/-- Each line stands behind those before it, with their line feeds. -/
theorem exists_of_splitLines : ∀ {before after : List (List Char)} {cs line : List Char},
    splitLines cs = before ++ line :: after →
    ∃ rest, cs = before.flatMap (· ++ ['\n']) ++ (line ++ rest) ∧ EndsLine rest ∧ '\n' ∉ line ∧
      ∀ line ∈ before, '\n' ∉ line
  | [], after, cs, line, h => by
    obtain ⟨single, ⟨-, rfl⟩ | ⟨rest, rfl, -⟩⟩ := exists_of_splitLines_eq_cons h
    · exact ⟨[], (List.append_nil cs).symm, .inl rfl, single, nofun⟩
    · exact ⟨'\n' :: rest, rfl, .inr ⟨rest, rfl⟩, single, nofun⟩
  | first :: before, after, cs, line, h => by
    obtain ⟨single, ⟨none, -⟩ | ⟨rest, rfl, lines⟩⟩ := exists_of_splitLines_eq_cons h
    · simp at none
    · obtain ⟨rest', rfl, ends, single', singles⟩ := exists_of_splitLines lines
      exact ⟨rest', by simp, ends, single', List.forall_mem_cons.2 ⟨single, singles⟩⟩

theorem splitLines_of_endsLine {line rest : List Char} (single : '\n' ∉ line) (ends : EndsLine rest) :
    ∃ after, splitLines (line ++ rest) = line :: after := by
  rcases ends with rfl | ⟨after, rfl⟩
  · obtain ⟨first, ls, split⟩ := exists_splitLines (line ++ [])
    obtain ⟨-, ⟨-, whole⟩ | ⟨rest, text, -⟩⟩ := exists_of_splitLines_eq_cons split
    · rw [List.append_nil] at whole
      exact ⟨ls, whole ▸ split⟩
    · rw [List.append_nil] at text
      exact absurd (text ▸ by simp) single
  · exact ⟨_, splitLines_append single after⟩

/-- The offset behind lines is the size of their text. -/
theorem offsetBehind_eq (lines : List (List Char)) (offset : Nat) :
    offsetBehind offset lines = offset + Utf8.size (lines.flatMap (· ++ ['\n'])) := by
  induction lines generalizing offset with
  | nil => rfl
  | cons line lines ih =>
    have feed : Utf8.size ['\n'] = 1 := rfl
    show offsetBehind (offset + Utf8.size line + 1) lines = _
    rw [ih, List.flatMap_cons, Utf8.size_append, Utf8.size_append, feed]
    omega

theorem getLast?_flatMap : ∀ lines : List (List Char),
    lines.flatMap (· ++ ['\n']) = [] ∨ (lines.flatMap (· ++ ['\n'])).getLast? = some '\n'
  | [] => .inl rfl
  | line :: lines => by
    rw [List.flatMap_cons, List.getLast?_append]
    rcases getLast?_flatMap lines with none | feed
    · rw [none]
      exact .inr (by simp)
    · rw [feed]
      exact .inr rfl

/-!
## The line that fails
-/

variable {S : Schema} {e : Error}

/-- A run of lines fails at one of them, behind lines that are read. -/
theorem exists_of_readLines_eq_error : ∀ {ls : List (List Char)} {offset : Nat} {s : State},
    readLines S offset ls s = .error e → ∃ before line after s', ls = before ++ line :: after ∧
      readLines S offset before s = .ok s' ∧ readLine S (offsetBehind offset before) (Text.trim line) s' = .error e
  | [], _, _, h => nomatch h
  | line :: ls, offset, s, h => by
    rw [readLines] at h
    cases here : readLine S offset (Text.trim line) s with
    | error e' =>
      rw [here] at h
      cases h
      exact ⟨[], line, ls, s, rfl, rfl, here⟩
    | ok m =>
      rw [here] at h
      obtain ⟨before, last, after, s', rfl, done, fails⟩ := exists_of_readLines_eq_error h
      refine ⟨line :: before, last, after, s', rfl, ?_, fails⟩
      rw [readLines, here]
      exact done

/-- A failure that is no fault of syntax, or one at an offset. -/
def OnlyAt (offset : Nat) (e : Error) : Prop := ∀ o fault, e = .syntaxFault o fault → o = offset

theorem Silent.onlyAt (offset : Nat) (h : e.Silent) : OnlyAt offset e := fun o fault he => absurd he (h o fault)

/-- A text that spells no value of a shape is no fault of syntax in itself. -/
theorem silent_of_parse : ∀ {shape : Shape} {text : List Char}, parse shape text = .error e → e.Silent
  | .leaf type, text, h => silent_parse (Except.map_eq_error_iff.1 h)
  | .enum table initial, text, h => silent_ofKey (Except.map_eq_error_iff.1 h)
  | .optional content, text, h => silent_of_parse (Except.map_eq_error_iff.1 h)
  | .record _, _, h | .tuple _, _, h | .vector _, _, h | .numbers _, _, h | .sequence _, _, h | .buffer, _, h => by
    cases h
    exact nofun

/-- Fields cannot be changed where one of them cannot. -/
theorem exists_of_update_eq_error {key : String} {change : Value → Except Error Value} {fields : List (String × Value)}
    (h : Fields.update key change fields = .error e) : ∃ v, change v = .error e := by
  rw [← Except.error?_eq_some_iff, Fields.error?_update] at h
  obtain ⟨v, -, fails⟩ := Option.bind_eq_some_iff.1 h
  exact ⟨v, Except.error?_eq_some_iff.1 fails⟩

/-- A text that cannot be assigned is a fault of syntax of its own line, if it is one. -/
theorem onlyAt_of_assign {offset : Nat} {key : String} {text : List Char} {fields : List (String × Value)}
    (h : assign offset key text fields = .error e) : OnlyAt offset e := by
  unfold assign at h
  cases update : Fields.update key (fun old => parse old.shape text) fields with
  | ok fields' => rw [update] at h; cases h
  | error e' =>
    rw [update] at h
    cases h
    obtain ⟨v, fails⟩ := exists_of_update_eq_error update
    have only := Silent.onlyAt offset (silent_of_parse fails)
    unfold describe
    split
    · rintro o fault ⟨⟩
      rfl
    · exact only

theorem onlyAt_of_take {offset : Nat} {key : String} {text : List Char} {s : State}
    (h : s.take offset key text = .error e) : OnlyAt offset e := by
  unfold State.take at h
  split at h
  · cases h
  · exact onlyAt_of_assign (Except.map_eq_error_iff.1 h)
  · obtain ⟨v, fails⟩ := exists_of_update_eq_error (Except.map_eq_error_iff.1 h)
    unfold updateBlock at fails
    split at fails
    · exact onlyAt_of_assign (Except.map_eq_error_iff.1 fails)
    · exact onlyAt_of_assign (Except.map_eq_error_iff.1 fails)
    · cases fails

/-- A header never fails. -/
theorem turn_ne_error {name : String} {s : State} : turn S name s ≠ .error e := by
  rw [turn_eq]
  intro h
  obtain ⟨v, fails⟩ := exists_of_update_eq_error (Except.map_eq_error_iff.1 h)
  cases fails

/-- A line that is neither blank nor a comment. -/
def Speaks (line : List Char) : Prop := ∃ c, (Text.trim line).head? = some c ∧ c ≠ ';' ∧ c ≠ '#'

theorem speaks_iff {line : List Char} : Speaks line ↔ classify line ≠ .nothing := by
  unfold Speaks classify
  generalize Text.trim line = line
  unfold Line.ofTrimmed
  split
  · simp
  · simp
  · simp
  · split
    · simp
    · simp
  · rename_i none comment hash bracket
    obtain ⟨c, rest, rfl⟩ := List.exists_cons_of_ne_nil none
    have speaks : c ≠ ';' ∧ c ≠ '#' := by
      constructor
      · rintro rfl
        exact comment rest rfl
      · rintro rfl
        exact hash rest rfl
    split
    · simp [speaks]
    · simp [speaks]

/-- **A line that fails says something, and a fault of syntax in it stands at its start.** -/
theorem speaks_of_readLine_eq_error {offset : Nat} {line : List Char} {s : State}
    (h : readLine S offset (Text.trim line) s = .error e) : Speaks line ∧ OnlyAt offset e := by
  rw [readLine_eq] at h
  cases said : classify line with
  | nothing =>
    rw [said] at h
    cases h
  | header name =>
    rw [said] at h
    exact absurd h turn_ne_error
  | entry key text =>
    rw [said] at h
    exact ⟨speaks_iff.2 (by rw [said]; exact nofun), onlyAt_of_take h⟩
  | fault why =>
    rw [said] at h
    cases h
    refine ⟨speaks_iff.2 (by rw [said]; exact nofun), ?_⟩
    rintro o fault ⟨⟩
    rfl

/-- Where a text fails: at a line that says something, behind lines that are read, and so does every text that agrees
with it up to the end of that line.  A fault of syntax tells the number of bytes in front of the line. -/
structure FailsAt (S : Schema) (name : String) (e : Error) (front line : List Char) : Prop where
  start : front = [] ∨ front.getLast? = some '\n'
  single : '\n' ∉ line
  speaks : Speaks line
  offset : ∀ offset fault, e = .syntaxFault offset fault → offset = (Utf8.encode front).length
  before : ∃ v, read S (.record name) (String.ofList front) = .ok v
  always : ∀ rest, EndsLine rest → read S (.record name) (String.ofList (front ++ (line ++ rest))) = .error e

/-- **A text fails at its first line that is at fault**, and what stands behind that line changes nothing. -/
theorem fails_at_first_fault {name : String} {text : String} : read S (.record name) text = .error e ↔
    ∃ front line rest, text.toList = front ++ (line ++ rest) ∧ EndsLine rest ∧ FailsAt S name e front line := by
  constructor
  · intro h
    rw [read_eq, Except.map_eq_error_iff] at h
    obtain ⟨before, line, after, s, lines, done, fails⟩ := exists_of_readLines_eq_error h
    obtain ⟨rest, split, ends, single, singles⟩ := exists_of_splitLines lines
    obtain ⟨speaks, only⟩ := speaks_of_readLine_eq_error fails
    refine ⟨_, line, rest, split, ends, getLast?_flatMap before, single, speaks, ?_, ?_, fun rest' ends' => ?_⟩
    · intro o fault he
      rw [only o fault he, offsetBehind_eq, Utf8.length_encode, Nat.zero_add]
    · -- behind the last line feed stands an empty line, which says nothing
      refine ⟨.record name s.fields, ?_⟩
      rw [read_eq, String.toList_ofList, splitLines_flatMap singles, readLines_append, done]
      rfl
    · obtain ⟨after', lines'⟩ := splitLines_of_endsLine single ends'
      rw [read_eq, String.toList_ofList, splitLines_flatMap_append singles, lines', readLines_append, done]
      show (fun s => Value.record name s.fields) <$> readLines S _ (line :: after') s = _
      rw [readLines, fails]
      rfl
  · rintro ⟨front, line, rest, split, ends, fails⟩
    have again := fails.always rest ends
    rwa [← split, String.ofList_toList] at again

/-- A section that no field is named for, with a line at fault behind a line of two bytes to a character and a comment;
the header that is not closed comes too late. -/
theorem fails_at_first_fault_lost :
    read stations (.record "Station") "motto=é\r\n; [\n[lost]\nwidth\r\n[dial" =
      .error (.syntaxFault 21 (.notAssignment "width")) ∧
    ∃ front line rest, "motto=é\r\n; [\n[lost]\nwidth\r\n[dial".toList = front ++ (line ++ rest) ∧ EndsLine rest ∧
      FailsAt stations "Station" (.syntaxFault 21 (.notAssignment "width")) front line ∧
      (Utf8.encode front).length = 21 := by
  have run : (read stations (.record "Station") "motto=é\r\n; [\n[lost]\nwidth\r\n[dial").error? =
      some (.syntaxFault 21 (.notAssignment "width")) := by decide +kernel
  have run := Except.error?_eq_some_iff.1 run
  obtain ⟨front, line, rest, split, ends, fails⟩ := fails_at_first_fault.1 run
  exact ⟨run, front, line, rest, split, ends, fails, (fails.offset _ _ rfl).symm⟩

end Settings
end AssetRecords
