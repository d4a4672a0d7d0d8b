import AssetRecords.Proofs.Json.Reader
import AssetRecords.Proofs.Json.Window
import AssetRecords.Proofs.Typing
/-!
# Texts — what a value is written as

The tree that the text of a value is meant for, and the text itself as it is put together from the texts of its parts:
the layout only puts blanks between them.
-/
namespace AssetRecords
namespace Json

open Number (ofWhole toInt?_ofWhole)

variable {number : List Char → Option Number}

/-!
## Trees
-/

/-- The number that the text of a stored number is read as. -/
def numeral (number : List Char → Option Number) (s : Scalar) : Number := (number s.chars).getD (.uint 0)

mutual

/-- The tree of a value.  Absent fields are left out of their record, and what is present stands for itself. -/
def tree (number : List Char → Option Number) : Value → Json
  | .leaf (.bool b) => .bool b
  | .leaf (.number s) => .number (numeral number s)
  | .leaf (.text s) => .text s
  | .enum table variant => .text ((table.keyOf? variant).getD "")
  | .record _ fields => .object (sorted (members number fields))
  | .tuple vs | .sequence _ vs => .array (trees number vs)
  | .numbers type ns => .array (ns.map fun bits => .number (numeral number ⟨type, bits⟩))
  | .buffer b => .array (b.scalars.map fun s => .number (numeral number s))
  | .absent _ => .null
  | .present _ v => tree number v

/-- The members that fields become, in the order of the fields. -/
def members (number : List Char → Option Number) : List (String × Value) → List (String × Json)
  | [] => []
  | (key, v) :: rest => if isAbsent v then members number rest else (key, tree number v) :: members number rest

def trees (number : List Char → Option Number) : List Value → List Json
  | [] => []
  | v :: rest => tree number v :: trees number rest

end

mutual

/-- How many levels a value makes up, where absent fields are no parts of a record: as many as its parts and one more
for each of them, at least `bracket` for what stands in brackets, and `wrapped` more for what is optional. -/
def levels (bracket wrapped : Nat) : Value → Nat
  | .record _ fields => max bracket (levelsOfFields bracket wrapped fields)
  | .tuple vs | .sequence _ vs => max bracket (levelsOfAll bracket wrapped vs)
  | .numbers _ _ | .buffer _ => bracket
  | .present _ v => levels bracket wrapped v + wrapped
  | _ => 0

def levelsOfFields (bracket wrapped : Nat) : List (String × Value) → Nat
  | [] => 0
  | (_, v) :: rest =>
    if isAbsent v then levelsOfFields bracket wrapped rest
    else max (levels bracket wrapped v + 1) (levelsOfFields bracket wrapped rest)

def levelsOfAll (bracket wrapped : Nat) : List Value → Nat
  | [] => 0
  | v :: rest => max (levels bracket wrapped v + 1) (levelsOfAll bracket wrapped rest)

end

/-- How deep the brackets nest in the text of a value. -/
def nesting (v : Value) : Nat := levels 1 0 v

theorem levels_lt_levelsOfAll {bracket wrapped : Nat} {p : Value} :
    ∀ {vs : List Value}, p ∈ vs → levels bracket wrapped p < levelsOfAll bracket wrapped vs
  | v :: rest, h => by
    rw [levelsOfAll]
    rcases List.mem_cons.1 h with rfl | h
    · omega
    · have : levels bracket wrapped p < levelsOfAll bracket wrapped rest := levels_lt_levelsOfAll h
      omega

theorem levels_lt_levelsOfFields {bracket wrapped : Nat} {key : String} {p : Value} (here : isAbsent p = false) :
    ∀ {fields : List (String × Value)}, (key, p) ∈ fields →
      levels bracket wrapped p < levelsOfFields bracket wrapped fields
  | (_, v) :: rest, h => by
    rw [levelsOfFields]
    rcases List.mem_cons.1 h with h | h
    · cases h
      rw [here, if_neg (by decide)]
      omega
    · have : levels bracket wrapped p < levelsOfFields bracket wrapped rest := levels_lt_levelsOfFields here h
      split <;> omega

/-!
## Texts
-/

/-- Further items of a list, each behind a comma and a gap. -/
def further (gap : List Char) : List (List Char) → List Char
  | [] => []
  | t :: ts => ',' :: (gap ++ (t ++ further gap ts))

/-- What stands between brackets: items with commas between them, with gaps before the first one, between them and
behind the last one. -/
def between (first gap last : List Char) : List (List Char) → List Char
  | [] => []
  | t :: ts => first ++ (t ++ (further gap ts ++ last))

/-- An emission is not refused, and its pieces make up a text. -/
def Emission.Gives (m : Emission) (t : List Char) : Prop := m.refusal = none ∧ m.pieces.flatten = t

theorem Emission.gives_append_iff {a b : Emission} {t : List Char} :
    (a ++ b).Gives t ↔ ∃ s u, a.Gives s ∧ b.Gives u ∧ s ++ u = t := by
  obtain ⟨ps, refusal⟩ := a
  obtain ⟨qs, refusal'⟩ := b
  cases refusal with
  | some e => exact ⟨fun h => (nomatch h.1), fun ⟨_, _, h, _⟩ => (nomatch h.1)⟩
  | none =>
    constructor
    · rintro ⟨h, rfl⟩
      exact ⟨ps.flatten, qs.flatten, ⟨rfl, rfl⟩, ⟨h, rfl⟩, List.flatten_append.symm⟩
    · rintro ⟨_, _, ⟨-, rfl⟩, ⟨h, rfl⟩, rfl⟩
      exact ⟨h, List.flatten_append⟩

theorem Emission.gives_piece_iff {cs t : List Char} : (Emission.piece cs).Gives t ↔ t = cs := by
  simp [Gives, piece, eq_comm]

theorem Emission.gives_nil_iff {t : List Char} : ({} : Emission).Gives t ↔ t = [] := by
  simp [Gives, eq_comm]

open Emission (gives_append_iff gives_piece_iff gives_nil_iff)

/-- What a layout puts between members and elements is blank. -/
def Layout.Spaced (layout : Layout) : Prop := layout.pretty = true → isSpace layout.indent = true

instance (layout : Layout) : Decidable layout.Spaced := inferInstanceAs (Decidable (_ → _))

namespace Layout

def gap (layout : Layout) : List Char := if layout.pretty then [' '] else []

def line (layout : Layout) (depth : Nat) : List Char :=
  if layout.pretty then '\n' :: List.replicate depth layout.indent else []

theorem gives_newline_iff {layout : Layout} {depth : Nat} {t : List Char} :
    (layout.newline depth).Gives t ↔ t = layout.line depth := by
  unfold newline line
  split
  · simp [Emission.Gives, eq_comm]
  · exact gives_nil_iff

theorem gives_separator_iff {layout : Layout} {t : List Char} :
    layout.separator.Gives t ↔ t = ',' :: layout.gap := by
  unfold separator gap
  rw [gives_piece_iff]
  split <;> rfl

theorem gives_colon_iff {layout : Layout} {t : List Char} :
    layout.colon.Gives t ↔ t = layout.gap ++ ':' :: layout.gap := by
  unfold colon gap
  rw [gives_piece_iff]
  split <;> rfl

theorem isSpace_gap (layout : Layout) : layout.gap.all isSpace = true := by
  unfold gap
  split <;> rfl

theorem Spaced.isSpace_line {layout : Layout} (h : layout.Spaced) (depth : Nat) :
    (layout.line depth).all isSpace = true := by
  unfold line
  split
  · rename_i pretty
    rw [List.all_cons, List.all_eq_true.2 fun c hc => List.eq_of_mem_replicate hc ▸ h pretty]
    rfl
  · rfl

end Layout

theorem gives_writeText_iff {s : String} {t : List Char} : (writeText s).Gives t ↔ t = Quoted.encode s.toList := by
  simp [writeText, Emission.Gives, Quoted.encode, eq_comm]

theorem gives_writeNumber_iff {s : Scalar} {t : List Char} :
    (writeNumber s).Gives t ↔ s.isFinite = true ∧ t = s.chars := by
  unfold writeNumber
  cases finite : s.isFinite with
  | true =>
    rw [if_pos rfl, gives_piece_iff]
    exact ⟨fun h => ⟨rfl, h⟩, fun h => h.2⟩
  | false =>
    -- what is not finite is of a floating-point type
    obtain ⟨x, hx⟩ : ∃ x, s.toNumber = .float x := by
      obtain ⟨type, bits⟩ := s
      cases type with
      | float32 | float64 => exact ⟨_, rfl⟩
      | _ => cases finite
    rw [if_neg (by decide), hx]
    exact ⟨fun h => (nomatch h.1), fun h => (nomatch h.1)⟩

theorem gives_after_iff {layout : Layout} : ∀ {ns : List Scalar} {t : List Char},
    (writeNumbersAfter layout ns).Gives t ↔
      (∀ s ∈ ns, s.isFinite = true) ∧ t = further layout.gap (ns.map Scalar.chars)
  | [], t => by
    rw [writeNumbersAfter, gives_nil_iff]
    exact ⟨fun h => ⟨nofun, h⟩, fun h => h.2⟩
  | n :: rest, t => by
    rw [writeNumbersAfter, gives_append_iff, List.forall_mem_cons, List.map_cons, further]
    simp only [gives_append_iff, Layout.gives_separator_iff, gives_writeNumber_iff, gives_after_iff]
    constructor
    · rintro ⟨_, _, ⟨_, _, rfl, ⟨finite, rfl⟩, rfl⟩, ⟨all, rfl⟩, rfl⟩
      exact ⟨⟨finite, all⟩, by rw [List.append_assoc, List.cons_append]⟩
    · rintro ⟨⟨finite, all⟩, rfl⟩
      exact ⟨_, _, ⟨_, _, rfl, ⟨finite, rfl⟩, rfl⟩, ⟨all, rfl⟩, by rw [List.append_assoc, List.cons_append]⟩

/-- Numbers are written exactly if all of them are finite. -/
theorem gives_numbers_iff {layout : Layout} {ns : List Scalar} {t : List Char} : (writeNumbers layout ns).Gives t ↔
    (∀ s ∈ ns, s.isFinite = true) ∧ t = '[' :: (between [] layout.gap [] (ns.map Scalar.chars) ++ [']']) := by
  unfold writeNumbers
  simp only [gives_append_iff, gives_piece_iff]
  cases ns with
  | nil =>
    simp only [gives_nil_iff]
    constructor
    · rintro ⟨_, _, ⟨_, _, rfl, rfl, rfl⟩, rfl, rfl⟩
      exact ⟨nofun, rfl⟩
    · rintro ⟨-, rfl⟩
      exact ⟨_, _, ⟨_, _, rfl, rfl, rfl⟩, rfl, rfl⟩
  | cons n rest =>
    simp only [gives_append_iff, gives_writeNumber_iff, gives_after_iff, List.forall_mem_cons, List.map_cons, between,
      List.append_nil, List.nil_append]
    constructor
    · rintro ⟨_, _, ⟨_, _, rfl, ⟨_, _, ⟨finite, rfl⟩, ⟨all, rfl⟩, rfl⟩, rfl⟩, rfl, rfl⟩
      exact ⟨⟨finite, all⟩, rfl⟩
    · rintro ⟨⟨finite, all⟩, rfl⟩
      exact ⟨_, _, ⟨_, _, rfl, ⟨_, _, ⟨finite, rfl⟩, ⟨all, rfl⟩, rfl⟩, rfl⟩, rfl, rfl⟩

/-- The texts of elements, each for itself, are found between the brackets of an array. -/
theorem texts_of_gives_elements {layout : Layout} {depth : Nat} : ∀ {vs : List Value} {first : Bool} {t : List Char},
    (writeElements layout depth first vs).Gives t →
      ∃ texts, List.Forall₂ (fun t v => (write layout depth v).Gives t) texts vs ∧
        t = if first then between [] layout.gap [] texts else further layout.gap texts
  | [], first, t, h => by
    rw [writeElements, gives_nil_iff] at h
    subst h
    exact ⟨[], .nil, by cases first <;> rfl⟩
  | v :: rest, first, t, h => by
    rw [writeElements] at h
    obtain ⟨_, u, front, hu, rfl⟩ := gives_append_iff.1 h
    obtain ⟨comma, e, hcomma, he, rfl⟩ := gives_append_iff.1 front
    obtain ⟨texts, each, hu⟩ := texts_of_gives_elements hu
    rw [if_neg (by decide)] at hu
    subst hu
    refine ⟨e :: texts, .cons he each, ?_⟩
    cases first with
    | true =>
      rw [gives_nil_iff.1 hcomma, if_pos rfl, between, List.append_nil]
      rfl
    | false =>
      rw [Layout.gives_separator_iff.1 hcomma, if_neg (by decide), further]
      simp only [List.cons_append, List.append_assoc]

/-- The text of a member at a depth. -/
def MemberText (layout : Layout) (depth : Nat) (t : List Char) (f : String × Value) : Prop :=
  ∃ e, (write layout depth f.2).Gives e ∧
    t = Quoted.encode f.1.toList ++ (layout.gap ++ ':' :: (layout.gap ++ e))

theorem exists_of_isAbsent {v : Value} (h : isAbsent v = true) : ∃ content, v = .absent content := by
  cases v with
  | absent content => exact ⟨content, rfl⟩
  | _ => cases h

/-- The fields that are written. -/
def kept (fields : List (String × Value)) : List (String × Value) := fields.filter fun f => !isAbsent f.2

theorem kept_eq_nil_iff {fields : List (String × Value)} :
    kept fields = [] ↔ (fields.all fun f => isAbsent f.2) = true := by
  simp [kept, List.filter_eq_nil_iff]

theorem mem_kept_iff {f : String × Value} {fields : List (String × Value)} :
    f ∈ kept fields ↔ f ∈ fields ∧ isAbsent f.2 = false := by
  simp [kept]

theorem members_eq (fields : List (String × Value)) :
    members number fields = (kept fields).map fun f => (f.1, tree number f.2) := by
  induction fields with
  | nil => rw [members]; rfl
  | cons f rest ih =>
    rw [members, kept, List.filter_cons]
    cases isAbsent f.2 with
    | true => exact ih
    | false => exact congrArg (_ :: ·) ih

theorem trees_eq (vs : List Value) : trees number vs = vs.map (tree number) := by
  induction vs with
  | nil => rw [trees, List.map_nil]
  | cons v rest ih => rw [trees, List.map_cons, ih]

theorem texts_of_gives_fields {layout : Layout} {depth : Nat} :
    ∀ {fields : List (String × Value)} {first : Bool} {t : List Char}, (writeFields layout depth first fields).Gives t →
      ∃ texts, List.Forall₂ (MemberText layout (depth + 1)) texts (kept fields) ∧
        t = if first then between (layout.line (depth + 1)) (layout.line (depth + 1)) [] texts
          else further (layout.line (depth + 1)) texts
  | [], first, t, h => by
    rw [writeFields, gives_nil_iff] at h
    subst h
    exact ⟨[], .nil, by cases first <;> rfl⟩
  | (key, v) :: rest, first, t, h => by
    rw [writeFields] at h
    split at h
    · rename_i absent
      obtain ⟨texts, each, ht⟩ := texts_of_gives_fields h
      refine ⟨texts, ?_, ht⟩
      rw [kept, List.filter_cons_of_neg (by rw [absent]; decide)]
      exact each
    · rename_i here
      obtain ⟨_, u, h₁, hu, rfl⟩ := gives_append_iff.1 h
      obtain ⟨_, e, h₂, he, rfl⟩ := gives_append_iff.1 h₁
      obtain ⟨_, colon, h₃, hcolon, rfl⟩ := gives_append_iff.1 h₂
      obtain ⟨_, k, h₄, hk, rfl⟩ := gives_append_iff.1 h₃
      obtain ⟨comma, line, hcomma, hline, rfl⟩ := gives_append_iff.1 h₄
      obtain ⟨texts, each, hu⟩ := texts_of_gives_fields hu
      rw [if_neg (by decide)] at hu
      obtain rfl := Layout.gives_newline_iff.1 hline
      obtain rfl := Layout.gives_colon_iff.1 hcolon
      obtain rfl := gives_writeText_iff.1 hk
      subst hu
      refine ⟨(Quoted.encode key.toList ++ (layout.gap ++ ':' :: (layout.gap ++ e))) :: texts, ?_, ?_⟩
      · rw [kept, List.filter_cons_of_pos (by simp [here])]
        exact .cons ⟨e, he, rfl⟩ each
      · cases first with
        | true =>
          rw [gives_nil_iff.1 hcomma, if_pos rfl, between, List.append_nil]
          simp only [List.cons_append, List.append_assoc, List.nil_append]
        | false =>
          rw [gives_piece_iff.1 hcomma, if_neg (by decide), further]
          simp only [List.cons_append, List.append_assoc, List.nil_append]

/-- The brackets of an array are around its elements. -/
theorem texts_of_gives_array {layout : Layout} {depth : Nat} {vs : List Value} {t : List Char}
    (h : (Emission.piece ['['] ++ writeElements layout depth true vs ++ Emission.piece [']']).Gives t) :
    ∃ texts, List.Forall₂ (fun t v => (write layout depth v).Gives t) texts vs ∧
      t = '[' :: (between [] layout.gap [] texts ++ [']']) := by
  obtain ⟨_, _, front, hclose, rfl⟩ := gives_append_iff.1 h
  obtain ⟨_, _, hopen, hbody, rfl⟩ := gives_append_iff.1 front
  obtain rfl := gives_piece_iff.1 hopen
  obtain rfl := gives_piece_iff.1 hclose
  obtain ⟨texts, written, rfl⟩ := texts_of_gives_elements hbody
  refine ⟨texts, written, ?_⟩
  rw [if_pos rfl, List.append_assoc, List.singleton_append]

/-- The brackets of an object are around its members, the closing one on a line of its own if there are any. -/
theorem texts_of_gives_object {layout : Layout} {depth : Nat} {fields : List (String × Value)} {t : List Char}
    (h : (if fields.all fun f => isAbsent f.2 then Emission.piece ['\x7b', '\x7d']
      else .piece ['\x7b'] ++ writeFields layout depth true fields ++ layout.newline depth ++ .piece ['\x7d']).Gives t) :
    ∃ texts last, List.Forall₂ (MemberText layout (depth + 1)) texts (kept fields) ∧
      (last = [] ∨ last = layout.line depth) ∧
      t = '\x7b' :: (between (layout.line (depth + 1)) (layout.line (depth + 1)) last texts ++ ['\x7d']) := by
  split at h
  · rename_i absent
    refine ⟨[], [], ?_, .inl rfl, gives_piece_iff.1 h⟩
    rw [kept_eq_nil_iff.2 absent]
    exact .nil
  · rename_i some
    obtain ⟨_, _, h₁, hclose, rfl⟩ := gives_append_iff.1 h
    obtain ⟨_, _, h₂, hline, rfl⟩ := gives_append_iff.1 h₁
    obtain ⟨_, _, hopen, hbody, rfl⟩ := gives_append_iff.1 h₂
    obtain rfl := gives_piece_iff.1 hopen
    obtain rfl := gives_piece_iff.1 hclose
    obtain rfl := Layout.gives_newline_iff.1 hline
    obtain ⟨texts, each, rfl⟩ := texts_of_gives_fields hbody
    refine ⟨texts, layout.line depth, each, .inr rfl, ?_⟩
    -- some field is written, so the last line break is behind a member
    have member : texts ≠ [] := by
      rintro rfl
      exact some (kept_eq_nil_iff.1 (List.forall₂_nil_left_iff.1 each))
    obtain ⟨t, ts, rfl⟩ := List.exists_cons_of_ne_nil member
    simp only [if_true, between, List.append_assoc, List.cons_append, List.nil_append]

/-- The parts of what is written are written. -/
theorem exists_gives_part {layout : Layout} {depth : Nat} {p v : Value} {t : List Char}
    (h : (write layout depth v).Gives t) (hp : p ∈ v.parts) : ∃ depth t, (write layout depth p).Gives t := by
  cases v with
  | record name fields =>
    rw [write] at h
    obtain ⟨texts, -, each, -, -⟩ := texts_of_gives_object h
    obtain ⟨f, hf, rfl⟩ := List.mem_map.1 hp
    cases absent : isAbsent f.2 with
    | true =>
      -- an absent field is left out, but there would be a text for it
      obtain ⟨content, hcontent⟩ := exists_of_isAbsent absent
      refine ⟨0, ['n', 'u', 'l', 'l'], ?_⟩
      rw [hcontent, write]
      exact gives_piece_iff.2 rfl
    | false =>
      obtain ⟨t, -, e, he, -⟩ := exists_of_mem_forall₂ each (mem_kept_iff.2 ⟨hf, absent⟩)
      exact ⟨_, e, he⟩
  | tuple vs =>
    rw [write] at h
    obtain ⟨texts, each, -⟩ := texts_of_gives_array h
    obtain ⟨t, -, ht⟩ := exists_of_mem_forall₂ each hp
    exact ⟨depth, t, ht⟩
  | sequence element vs =>
    rw [write] at h
    obtain ⟨texts, each, -⟩ := texts_of_gives_array h
    obtain ⟨t, -, ht⟩ := exists_of_mem_forall₂ each hp
    exact ⟨depth, t, ht⟩
  | present content w =>
    rw [write] at h
    obtain rfl := List.mem_singleton.1 hp
    exact ⟨depth, t, h⟩
  | _ => cases hp

/-- A variant that is written is listed. -/
theorem exists_key_of_gives {layout : Layout} {depth : Nat} {table : EnumTable} {variant : Nat} {t : List Char}
    (h : (write layout depth (.enum table variant)).Gives t) :
    ∃ key, table.keyOf? variant = some key ∧ t = Quoted.encode key.toList := by
  rw [write, EnumTable.key] at h
  cases hkey : table.keyOf? variant with
  | none =>
    rw [hkey] at h
    cases h.1
  | some key =>
    rw [hkey] at h
    exact ⟨key, rfl, gives_writeText_iff.1 h⟩

/-- A value has the text that its pieces make up. -/
theorem render_eq_ok_iff {layout : Layout} {v : Value} {t : String} :
    render layout v = .ok t ↔ (write layout 0 v).Gives t.toList := by
  cases refusal : (write layout 0 v).refusal with
  | some e =>
    rw [render_of_refusal refusal, Emission.Gives, refusal]
    exact ⟨nofun, fun h => (nomatch h.1)⟩
  | none =>
    rw [render_of_refusal_none refusal, Emission.Gives, Except.ok.injEq, ← String.ofList_toList (s := t),
      String.ofList_inj, String.toList_ofList]
    exact ⟨fun h => ⟨refusal, h⟩, fun h => h.2⟩

/-!
## Numbers that are read
-/

/-- The text of a number is not refused. -/
def IsNumeral (number : List Char → Option Number) (s : Scalar) : Prop := number s.chars = some (numeral number s)

theorem isNumeral_of_eq_some {s : Scalar} {n : Number} (h : number s.chars = some n) :
    IsNumeral number s ∧ numeral number s = n := by
  have : numeral number s = n := by rw [numeral, h, Option.getD_some]
  exact ⟨by rw [IsNumeral, h, this], this⟩

/-- No number in a value has a text that is refused. -/
def Numeric (number : List Char → Option Number) (v : Value) : Prop :=
  ∀ (w : Value) (s : Scalar), w.Occurs v → s ∈ w.scalars → IsNumeral number s

theorem Numeric.part {p v : Value} (h : Numeric number v) (hp : p ∈ v.parts) : Numeric number p :=
  fun w s occurs => h w s (.part hp occurs)

theorem numeric_of_parts {v : Value} (atomic : v.parts = []) (each : ∀ s ∈ v.scalars, IsNumeral number s) :
    Numeric number v := by
  intro w s occurs hs
  cases occurs with
  | self => exact each s hs
  | part hp =>
    rw [atomic] at hp
    cases hp

theorem numeral_eq_ofWhole (words : ReadsWords number) {s : Scalar} {i : Int} (text : s.chars = Decimal.whole i)
    (low : -0x8000000000000000 ≤ i) (high : i < 0x10000000000000000) :
    IsNumeral number s ∧ numeral number s = ofWhole i :=
  isNumeral_of_eq_some (text ▸ words i low high)

/-- Numbers of integer types are found again. -/
theorem isNumeral_of_isFloating (words : ReadsWords number) {s : Scalar} (h : s.type.isFloating = false) :
    IsNumeral number s ∧ s.type.narrow (numeral number s) = .ok s.bits := by
  obtain ⟨i, text, ⟨low, high⟩, range, bits⟩ := s.chars_eq_whole h
  obtain ⟨read, same⟩ := numeral_eq_ofWhole words text low high
  exact ⟨read, bits ▸ same ▸ ScalarType.narrow_of_inRange h (toInt?_ofWhole low high) range⟩

end Json
end AssetRecords
