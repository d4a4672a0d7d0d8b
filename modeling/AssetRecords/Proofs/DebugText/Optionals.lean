import AssetRecords.Proofs.Collapse
import AssetRecords.Proofs.DebugText.RoundTrip
import AssetRecords.Proofs.DebugText.Whitespace
/-!
# Optionals — what debug text keeps of optionals and keys

An optional leaves no trace in debug text but the word for an absent one, and a key is written as it is.  A value is
read as its collapse (`read_collapse`); an enum value behind optionals is read as itself exactly if its key is one token
and is not taken for that word (`read_behind_eq_ok_iff`).
-/
namespace AssetRecords

/-- A shape behind so many optionals. -/
def Shape.behind (content : Shape) : Nat → Shape
  | 0 => content
  | layers + 1 => .optional (content.behind layers)

/-- A value behind so many optionals, each of them present. -/
def Value.behind (content : Shape) (v : Value) : Nat → Value
  | 0 => v
  | layers + 1 => .present (content.behind layers) (v.behind content layers)

namespace DebugText

variable {S : Schema} {L : Limits} {shape : Shape} {v : Value}

theorem read_of_reads {text : List Char} (h : Reads (readValue S L (L.maxDepth + 1) shape) text v) :
    read S L shape (String.ofList text) = .ok v := by
  obtain ⟨offset, run⟩ := h 0 [] [] [] rfl stops_nil
  rw [List.nil_append, List.append_nil] at run
  exact read_eq_ok_iff.2 ⟨_, by rw [String.toList_ofList]; exact run, rfl⟩

/-!
## Any value
-/

/-- What debug text needs of keys and floating-point numbers: they are to be found again, each from its one token. -/
structure Spelled (v : Value) : Prop where
  keys : ∀ table variant key, (Value.enum table variant).Occurs v → table.keyOf? variant = some key →
    table.valueOf? key = some variant ∧ IsToken key.toList
  floats : ∀ (w : Value) (s : Scalar), w.Occurs v → s ∈ w.scalars → s.type.isFloating = true →
    s.type.parse s.chars = .ok s.bits

/-- The collapse of a value can be told: nothing present in it looks absent. -/
theorem Spelled.legible (h : Spelled v) : Legible (v.collapse isNull) where
  keys table variant key occurs := by
    obtain ⟨u, inside, eq⟩ := Value.exists_of_occurs_collapse occurs
    obtain rfl := Value.eq_enum_of_collapse eq.symm
    exact h.keys table variant key inside
  contents content w occurs := by
    obtain ⟨u, -, eq⟩ := Value.exists_of_occurs_collapse occurs
    exact Value.looksAbsent_of_collapse eq.symm
  floats w s occurs hs := by
    obtain ⟨u, inside, rfl⟩ := Value.exists_of_occurs_collapse occurs
    rw [Value.scalars_collapse] at hs
    exact h.floats u s inside hs

theorem write_of_isNull (h : isNull v = true) : write v = .ok "null".toList := by
  cases v with
  | absent content => rw [write]
  | enum table variant =>
    rw [isNull, beq_iff_eq] at h
    rw [write, EnumTable.key, h]
    rfl
  | _ => cases h

theorem writeAll_collapse : ∀ {vs : List Value}, (∀ v ∈ vs, write (v.collapse isNull) = write v) →
    writeAll (vs.map (Value.collapse isNull)) = writeAll vs
  | [], _ => rfl
  | v :: rest, h => by
    have others := writeAll_collapse fun v hv => h v (List.mem_cons_of_mem _ hv)
    rw [List.map_cons, writeAll, writeAll, h v List.mem_cons_self, others]

/-- **A value and its collapse have the same text.** -/
theorem write_collapse (v : Value) : write (v.collapse isNull) = write v := by
  induction v using Value.parts_induction with
  | step v ih =>
    cases v with
    | record name fields =>
      rw [Value.collapse, write, write, writeFields_eq, writeFields_eq, Value.values_collapseFields]
      exact congrArg (_ <$> ·) (writeAll_collapse ih)
    | tuple vs | sequence element vs =>
      rw [Value.collapse, write, write, Value.collapseAll_eq]
      exact congrArg (_ <$> ·) (writeAll_collapse ih)
    | present content w =>
      have inside := ih w List.mem_cons_self
      rw [Value.collapse, write, ← inside]
      split
      · rename_i null
        rw [write, write_of_isNull null]
      · rw [write]
    | _ => rw [Value.collapse_of_parts_eq_nil rfl]

/-- **Debug text is read as the collapse of the value it was written for**, within the limits. -/
theorem read_collapse {t : String} (fits : S.HasShape v shape) (written : render v = .ok t) (spelled : Spelled v)
    (deep : v.depth 1 ≤ L.maxDepth) (wide : v.CountsWithin L.maxElements) :
    read S L shape t = .ok (v.collapse isNull) := by
  rw [render, Except.map_eq_ok_iff] at written
  obtain ⟨text, written, rfl⟩ := written
  rw [← write_collapse] at written
  have lower : (v.collapse isNull).depth 1 ≤ v.depth 1 := Value.depth_collapse_le 1 v
  have lower : (v.collapse isNull).depth 1 < L.maxDepth + 1 := by omega
  exact read_of_reads (reads_of_write (Schema.hasShape_collapse isNull fits) written lower wide.collapse spelled.legible)

/-!
## An enum value behind optionals
-/

section Behind

variable {table : EnumTable} {variant initial : Nat} {key : String}

theorem hasShape_behind {content : Shape} (fits : S.HasShape v content) :
    ∀ layers, S.HasShape (v.behind content layers) (content.behind layers)
  | 0 => fits
  | layers + 1 => .present (hasShape_behind fits layers)

theorem write_behind (content : Shape) (v : Value) : ∀ layers, write (v.behind content layers) = write v
  | 0 => rfl
  | layers + 1 => by rw [Value.behind, write, write_behind content v layers]

theorem render_behind (listed : table.keyOf? variant = some key) (content : Shape) (layers : Nat) :
    render ((Value.enum table variant).behind content layers) = .ok key := by
  rw [render, write_behind, write, EnumTable.key, listed]
  exact congrArg Except.ok String.ofList_toList

theorem depth_behind (content : Shape) (v : Value) (block : Nat) :
    ∀ layers, (v.behind content layers).depth block = v.depth block + layers
  | 0 => rfl
  | layers + 1 => by rw [Value.behind, Value.depth, depth_behind content v block layers, Nat.add_assoc]

theorem occurs_behind {w : Value} {content : Shape} {layers : Nat} (h : w.Occurs (v.behind content layers)) :
    w.Occurs v ∨ ∃ layer, w = v.behind content (layer + 1) := by
  induction layers with
  | zero => exact .inl h
  | succ layers ih =>
    rw [Value.behind] at h
    cases h with
    | self => exact .inr ⟨layers, rfl⟩
    | part hp h =>
      obtain rfl := List.mem_singleton.1 hp
      exact ih h

theorem eq_of_occurs_enum {w : Value} (h : w.Occurs (.enum table variant)) : w = .enum table variant := by
  cases h with
  | self => rfl
  | part hp _ => cases hp

theorem spelled_behind (listed : table.keyOf? variant = some key) (found : table.valueOf? key = some variant)
    (token : IsToken key.toList) (content : Shape) (layers : Nat) :
    Spelled ((Value.enum table variant).behind content layers) where
  keys table' variant' key' occurs listed' := by
    rcases occurs_behind occurs with here | ⟨layer, above⟩
    · cases eq_of_occurs_enum here
      cases listed.symm.trans listed'
      exact ⟨found, token⟩
    · cases above
  floats w s occurs hs := by
    rcases occurs_behind occurs with here | ⟨layer, rfl⟩
    · cases eq_of_occurs_enum here
      cases hs
    · cases hs

theorem countsWithin_behind (content : Shape) (layers most : Nat) :
    ((Value.enum table variant).behind content layers).CountsWithin most := by
  intro w occurs
  rcases occurs_behind occurs with here | ⟨layer, rfl⟩
  · cases eq_of_occurs_enum here
    exact Nat.zero_le _
  · exact Nat.zero_le _

theorem isNull_behind (listed : table.keyOf? variant = some key) (shown : key ≠ "null") (content : Shape) :
    ∀ layers, isNull ((Value.enum table variant).behind content layers) = false
  | 0 => by rw [Value.behind, isNull, listed, Option.some_beq_some, beq_eq_false_iff_ne]; exact shown
  | _ + 1 => rfl

theorem collapse_behind (listed : table.keyOf? variant = some key) (content : Shape) :
    ∀ layers, (key = "null" → layers = 0) →
      ((Value.enum table variant).behind content layers).collapse isNull = (Value.enum table variant).behind content layers
  | 0, _ => Value.collapse_of_parts_eq_nil rfl
  | layers + 1, shown => by
    have shown : key ≠ "null" := fun null => nomatch shown null
    have inside := collapse_behind listed content layers fun null => absurd null shown
    rw [Value.behind, Value.collapse, inside, isNull_behind listed shown, if_neg Bool.false_ne_true]

/-- A token is read for an enum value behind optionals: it has the value's key, and stands for nothing absent. -/
theorem token_of_readValue : ∀ {layers room : Nat} {s s' : Scanner},
    readValue S L room ((Shape.enum table initial).behind layers) s =
      .ok ((Value.enum table variant).behind (.enum table initial) layers, s') →
    IsToken (nextToken s) ∧ table.valueOf? (String.ofList (nextToken s)) = some variant ∧
      (nextToken s = "null".toList → layers = 0)
  | _, 0, _, _, run => by cases run
  | 0, room + 1, s, s', run => by
    rw [Shape.behind, readValue] at run
    obtain ⟨t, m, taken, run⟩ := Scan.bind_eq_ok_iff.1 run
    obtain ⟨read, m', keyed, ⟨⟩⟩ := Scan.bind_eq_ok_iff.1 run
    rw [token_apply] at taken
    split at taken
    · cases taken
    rename_i some
    cases taken
    refine ⟨⟨fun none => some (List.isEmpty_iff.2 none), List.all_takeWhile⟩, ?_, fun _ => rfl⟩
    have keyed := (Scan.liftM_eq_ok_iff.1 keyed).1
    unfold EnumTable.ofKey at keyed
    split at keyed
    · rename_i found
      cases keyed
      exact found
    · cases keyed
  | layers + 1, room + 1, s, s', run => by
    rw [Shape.behind, readValue, Scan.get_bind] at run
    split at run
    · obtain ⟨-, m, -, run⟩ := Scan.bind_eq_ok_iff.1 run
      cases run
    · rename_i solid
      obtain ⟨w, m, run, ⟨⟩⟩ := Scan.bind_eq_ok_iff.1 run
      obtain ⟨token, found, -⟩ := token_of_readValue run
      exact ⟨token, found, fun null => absurd null solid⟩

/-- **A listed enum value behind optionals is read from its key exactly if the key is one token, and not the word for
what is absent where an optional is around.** -/
theorem read_behind_eq_ok_iff (variants : (table.rows.map (·.1)).Nodup) (keys : (table.rows.map (·.2)).Nodup)
    (row : (variant, key) ∈ table.rows) {layers : Nat} (room : layers ≤ L.maxDepth) :
    read S L ((Shape.enum table initial).behind layers) key =
        .ok ((Value.enum table variant).behind (.enum table initial) layers) ↔
      IsToken key.toList ∧ (key = "null" → layers = 0) := by
  have listed := EnumTable.keyOf?_of_mem variants row
  have found := EnumTable.valueOf?_of_mem keys row
  constructor
  · intro h
    obtain ⟨s, run, -⟩ := read_eq_ok_iff.1 h
    obtain ⟨token, back, shown⟩ := token_of_readValue run
    -- the token has a key of the variant, and a table without repetitions has no other
    have other := EnumTable.keyOf?_of_mem variants (EnumTable.mem_of_valueOf? back)
    have same : key = String.ofList (nextToken (.start key.toList)) := Option.some.inj (listed.symm.trans other)
    have same : nextToken (.start key.toList) = key.toList := by
      conv_rhs => rw [same, String.toList_ofList]
    rw [same] at token shown
    exact ⟨token, fun null => shown (congrArg String.toList null)⟩
  · rintro ⟨token, shown⟩
    have fits := hasShape_behind (S := S) (.enum table variant initial) layers
    have deep : ((Value.enum table variant).behind (.enum table initial) layers).depth 1 ≤ L.maxDepth := by
      rw [depth_behind]
      simpa [Value.depth] using room
    have back := read_collapse fits (render_behind listed _ layers) (spelled_behind listed found token _ layers) deep
      (countsWithin_behind _ layers _)
    rwa [collapse_behind listed _ layers shown] at back

end Behind

end DebugText
end AssetRecords
