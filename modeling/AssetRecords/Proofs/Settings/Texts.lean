import AssetRecords.Proofs.EnumTable
import AssetRecords.Proofs.Initial
import AssetRecords.Proofs.Settings.Sections
/-!
# Texts — the lines of a text

A text that is written is found again line by line (`splitLines_of_render`): no key and no value breaks a line, if record
types are declared with keys that no line can hide and enums have keys of one line.
-/
namespace AssetRecords

namespace Settings

/-!
## Record types
-/

/-- A shape in whose record types the keys differ and are safe, and every field starts with a value of its shape. -/
structure Declared (S : Schema) (shape : Shape) : Prop where
  keys : ∀ name, S.Contains (.record name) shape → ∀ f ∈ S.fieldsOf name, SafeKey f.key
  distinct : ∀ name, S.Contains (.record name) shape → ((S.fieldsOf name).map (·.key)).Nodup
  starts : ∀ name, S.Contains (.record name) shape → ∀ f ∈ S.fieldsOf name, S.HasShape f.initial f.shape

section Declared

variable {S : Schema} {name : String} {fields : List (String × Value)}

theorem Declared.sub {e shape : Shape} (h : Declared S shape) (contains : S.Contains e shape) : Declared S e where
  keys name within := h.keys name (within.trans contains)
  distinct name within := h.distinct name (within.trans contains)
  starts name within := h.starts name (within.trans contains)

/-- Whether a shape is declared so can be told from the record types one by one. -/
theorem declared_of_records
    (plain : ∀ r ∈ S.records, (r.fields.map (·.key)).Nodup ∧ ∀ f ∈ r.fields, SafeKey f.key)
    (starts : ∀ r ∈ S.records, ∀ f ∈ r.fields, S.HasShape f.initial f.shape) (shape : Shape) : Declared S shape where
  keys name _ f hf := by
    obtain ⟨r, hr, fields⟩ := Schema.mem_records_of_mem_fieldsOf hf
    exact (plain r hr).2 f (fields ▸ hf)
  distinct name _ := Schema.nodup_of_records (fun r hr => (plain r hr).1) name
  starts name _ f hf := by
    obtain ⟨r, hr, fields⟩ := Schema.mem_records_of_mem_fieldsOf hf
    exact starts r hr f (fields ▸ hf)

theorem nodup_keys (declared : Declared S (.record name)) (fits : S.HasShape (.record name fields) (.record name)) :
    (fields.map (·.1)).Nodup :=
  fits.keys ▸ declared.distinct name .self

theorem safe_keys (declared : Declared S (.record name)) (fits : S.HasShape (.record name fields) (.record name)) :
    ∀ f ∈ fields, SafeKey f.1 := by
  intro f hf
  obtain ⟨type, htype, key, -⟩ := fits.exists_field hf
  exact key ▸ declared.keys name .self type htype

/-- The fields that a record of a type starts with. -/
def startOf (S : Schema) (name : String) : List (String × Value) := (S.fieldsOf name).map fun f => (f.key, f.initial)

theorem initial_record (S : Schema) (name : String) : S.initial (.record name) = .record name (startOf S name) := by
  rw [Schema.initial]
  rfl

theorem hasShape_startOf (declared : Declared S (.record name)) :
    S.HasShape (.record name (startOf S name)) (.record name) := by
  refine Schema.hasShape_of_fields ?_
  rw [startOf, List.forall₂_map_left_iff]
  exact List.forall₂_same.2 fun f hf => ⟨rfl, declared.starts name .self f hf⟩

theorem read_eq (S : Schema) (name t : String) : read S (.record name) t =
    (fun s => Value.record name s.fields) <$> readLines S 0 (splitLines t.toList) ⟨startOf S name, .root⟩ := by
  unfold read
  rw [initial_record]
  dsimp only
  cases readLines S 0 (splitLines t.toList) ⟨startOf S name, .root⟩ <;> rfl

end Declared

/-!
## Entries
-/

/-- Each enum in the value has a key of one line. -/
def OneLine (v : Value) : Prop :=
  ∀ table variant key, (Value.enum table variant).Occurs v → table.keyOf? variant = some key → '\n' ∉ key.toList

/-- What `OneLine` asks of a value apart from its parts. -/
def isOneLine : Value → Bool
  | .enum table variant => (table.keyOf? variant).all fun key => !key.toList.contains '\n'
  | _ => true

instance (v : Value) : Decidable (OneLine v) :=
  decidable_of_iff (v.all isOneLine = true) (by
    rw [Value.all_eq_true_iff]
    constructor
    · intro h table variant key occurs listed
      have single := h _ occurs
      rw [isOneLine, listed] at single
      simpa using single
    · intro h w occurs
      cases w with
      | enum table variant =>
        rw [isOneLine, Option.all_eq_true]
        intro key listed
        simpa using h table variant key occurs listed
      | _ => rfl)

theorem OneLine.sub {p v : Value} (h : OneLine v) (occurs : p.Occurs v) : OneLine p :=
  fun table variant key within => h table variant key (within.trans occurs)

theorem OneLine.part {p v : Value} (h : OneLine v) (hp : p ∈ v.parts) : OneLine p := h.sub (.part hp .self)

section Entries

variable {S : Schema} {v : Value} {shape : Shape}

/-- What a field is read as is told by the shape that it has. -/
theorem parse_shape (fits : S.HasShape v shape) (text : List Char) : parse v.shape text = parse shape text := by
  cases fits <;> rfl

theorem exists_key_of_entry {table : EnumTable} {variant : Nat} {text : List Char}
    (h : entry (.enum table variant) = .ok (.line text)) :
    ∃ key, table.keyOf? variant = some key ∧ text = key.toList := by
  rw [entry, EnumTable.key] at h
  cases hkey : table.keyOf? variant with
  | none =>
    rw [hkey] at h
    cases h
  | some key =>
    rw [hkey] at h
    cases h
    exact ⟨key, rfl, rfl⟩

theorem entry_leaf {l : Leaf} {e : Entry} (h : entry (.leaf l) = .ok e) :
    e = .line l.chars ∧ l.chars.any isLineBreak = false := by
  rw [entry] at h
  split at h
  · cases h
  · rename_i single
    cases h
    exact ⟨rfl, by simpa using single⟩

/-- What is written as a line has no line feed in it. -/
theorem no_lineFeed {text : List Char} (h : entry v = .ok (.line text)) (single : OneLine v) : '\n' ∉ text := by
  induction v using Value.parts_induction with
  | step v ih =>
    cases v with
    | leaf l =>
      obtain ⟨⟨⟩, unbroken⟩ := entry_leaf h
      intro feed
      exact absurd (List.any_eq_true.2 ⟨'\n', feed, rfl⟩) (by rw [unbroken]; decide)
    | enum table variant =>
      obtain ⟨key, hkey, rfl⟩ := exists_key_of_entry h
      exact single table variant key .self hkey
    | present content w => exact ih w List.mem_cons_self h (single.part List.mem_cons_self)
    | _ => cases h

/-- What becomes a section is a record or a present optional around what becomes one. -/
theorem block_cases {inner : List (String × Value)} (h : entry v = .ok (.block inner)) :
    (∃ name, v = .record name inner) ∨ ∃ content w, v = .present content w ∧ entry w = .ok (.block inner) := by
  cases v with
  | record name fields =>
    cases h
    exact .inl ⟨name, rfl⟩
  | present content w => exact .inr ⟨content, w, rfl, h⟩
  | leaf l => cases (entry_leaf h).1
  | enum table variant => obtain ⟨key, -, ⟨⟩⟩ := Except.map_eq_ok_iff.1 h
  | _ => cases h

/-- What becomes nothing is absent or a present optional around what becomes nothing. -/
theorem nothing_cases (h : entry v = .ok .nothing) :
    (∃ content, v = .absent content) ∨ ∃ content w, v = .present content w ∧ entry w = .ok .nothing := by
  cases v with
  | absent content => exact .inl ⟨content, rfl⟩
  | present content w => exact .inr ⟨content, w, rfl, h⟩
  | leaf l => cases (entry_leaf h).1
  | enum table variant => obtain ⟨key, -, ⟨⟩⟩ := Except.map_eq_ok_iff.1 h
  | _ => cases h

/-- What is written as a section is a record, behind any number of present optionals. -/
theorem record_of_entry (fits : S.HasShape v shape) {inner : List (String × Value)} (h : entry v = .ok (.block inner)) :
    ∃ name, S.Contains (.record name) shape ∧ S.HasShape (.record name inner) (.record name) ∧
      (Value.record name inner).Occurs v := by
  induction v using Value.parts_induction generalizing shape with
  | step v ih =>
    obtain ⟨name, rfl⟩ | ⟨content, w, rfl, within⟩ := block_cases h
    · cases fits with
      | record keys shapes => exact ⟨name, .self, .record keys shapes, .self⟩
    · cases fits with
      | present fits =>
        obtain ⟨name, contains, fits, occurs⟩ := ih _ List.mem_cons_self fits within
        exact ⟨name, .optional contains, fits, .part List.mem_cons_self occurs⟩

theorem lineOf?_eq_some_iff {text : List Char} : lineOf? v = some text ↔ entry v = .ok (.line text) := by
  unfold lineOf?
  split
  · rename_i heq
    rw [heq]
    simp
  · rename_i other
    exact ⟨nofun, fun h => absurd h (other text)⟩

theorem blockOf?_eq_some_iff {inner : List (String × Value)} :
    blockOf? v = some inner ↔ entry v = .ok (.block inner) := by
  unfold blockOf?
  split
  · rename_i heq
    rw [heq]
    simp
  · rename_i other
    exact ⟨nofun, fun h => absurd h (other inner)⟩

theorem mem_assignments_iff {fields : List (String × Value)} {m : String × List Char} :
    m ∈ assignments fields ↔ ∃ f ∈ fields, entry f.2 = .ok (.line m.2) ∧ m.1 = f.1 := by
  rw [assignments, List.mem_filterMap]
  constructor
  · rintro ⟨f, hf, h⟩
    obtain ⟨text, line, rfl⟩ := Option.map_eq_some_iff.1 h
    exact ⟨f, hf, lineOf?_eq_some_iff.1 line, rfl⟩
  · rintro ⟨f, hf, line, key⟩
    refine ⟨f, hf, ?_⟩
    rw [lineOf?_eq_some_iff.2 line, Option.map_some, ← key]

theorem safe_assignments {fields : List (String × Value)} (safe : ∀ f ∈ fields, SafeKey f.1) :
    ∀ m ∈ assignments fields, SafeKey m.1 := fun m hm => by
  obtain ⟨f, hf, -, key⟩ := mem_assignments_iff.1 hm
  exact key ▸ safe f hf

theorem mem_sections_iff {fields : List (String × Value)} {s : String × List (String × Value)} :
    s ∈ sections fields ↔ ∃ f ∈ fields, entry f.2 = .ok (.block s.2) ∧ s.1 = f.1 := by
  rw [sections, List.mem_filterMap]
  constructor
  · rintro ⟨f, hf, h⟩
    obtain ⟨inner, block, rfl⟩ := Option.map_eq_some_iff.1 h
    exact ⟨f, hf, blockOf?_eq_some_iff.1 block, rfl⟩
  · rintro ⟨f, hf, block, key⟩
    refine ⟨f, hf, ?_⟩
    rw [blockOf?_eq_some_iff.2 block, Option.map_some, ← key]

end Entries

/-!
## Whole texts
-/

theorem no_lineFeed_linesOf {fields : List (String × Value)} (keys : ∀ f ∈ fields, '\n' ∉ f.1.toList)
    (single : ∀ f ∈ fields, OneLine f.2) : ∀ line ∈ linesOf (assignments fields), '\n' ∉ line := by
  intro line hline
  obtain ⟨m, hm, rfl⟩ := List.mem_map.1 hline
  obtain ⟨f, hf, he, key⟩ := mem_assignments_iff.1 hm
  rw [assignment, List.mem_append, List.mem_cons, key]
  rintro (feed | feed | feed)
  · exact keys f hf feed
  · exact absurd feed (by decide)
  · exact no_lineFeed he (single f hf) feed

theorem no_lineFeed_header {key : String} (plain : '\n' ∉ key.toList) : '\n' ∉ header key := by
  rw [header, List.cons_append, List.mem_cons, List.mem_append, List.mem_singleton]
  rintro (feed | feed | feed)
  · exact absurd feed (by decide)
  · exact plain feed
  · exact absurd feed (by decide)

theorem no_lineFeed_layOut {parts : List (String × List (String × Value))} (plain : ∀ p ∈ parts, '\n' ∉ p.1.toList)
    (each : ∀ p ∈ parts, (∀ g ∈ p.2, '\n' ∉ g.1.toList) ∧ ∀ g ∈ p.2, OneLine g.2) :
    ∀ {atStart : Bool}, ∀ line ∈ layOut atStart parts, '\n' ∉ line := by
  induction parts with
  | nil => nofun
  | cons p parts ih =>
    intro atStart line hline
    obtain ⟨here, rest⟩ := List.forall_mem_cons.1 plain
    obtain ⟨⟨keys, single⟩, each⟩ := List.forall_mem_cons.1 each
    rw [layOut, List.mem_append, List.mem_append, sectionLines, List.mem_cons] at hline
    rcases hline with (gap | rfl | body) | behind
    · cases atStart with
      | true => cases gap
      | false =>
        obtain rfl := List.mem_singleton.1 gap
        exact List.not_mem_nil
    · exact no_lineFeed_header here
    · exact no_lineFeed_linesOf keys single line body
    · exact ih rest each line behind

section Texts

variable {S : Schema} {name : String} {fields : List (String × Value)} {t : String}

/-- The sections of a record hold records whose keys are safe as well. -/
theorem safe_sections (declared : Declared S (.record name)) (fits : S.HasShape (.record name fields) (.record name))
    {p : String × List (String × Value)} (hp : p ∈ sections fields) : SafeKey p.1 ∧ ∀ g ∈ p.2, SafeKey g.1 := by
  obtain ⟨f, hf, he, key⟩ := mem_sections_iff.1 hp
  refine ⟨key ▸ safe_keys declared fits f hf, ?_⟩
  obtain ⟨type, htype, -, fits⟩ := fits.exists_field hf
  obtain ⟨inner, contains, fits, -⟩ := record_of_entry fits he
  exact safe_keys (declared.sub (.field htype contains)) fits

theorem render_eq_ok_iff {v : Value} :
    render v = .ok t ↔ ∃ ls, lines v = .ok ls ∧ t = String.ofList (ls.flatMap (· ++ ['\n'])) := by
  unfold render
  rw [Except.bind_eq_ok_iff]
  refine exists_congr fun ls => and_congr_right fun _ => ?_
  exact ⟨fun h => (Except.ok.inj h).symm, fun h => congrArg Except.ok h.symm⟩

/-- **A text that is written is found again line by line**, with an empty line behind the last line feed. -/
theorem splitLines_of_render (declared : Declared S (.record name))
    (fits : S.HasShape (.record name fields) (.record name)) (single : OneLine (.record name fields))
    (written : render (.record name fields) = .ok t) :
    Writable fields ∧ (∀ p ∈ sections fields, Flat p.2) ∧ splitLines t.toList = linesOf (assignments fields) ++
      (layOut (linesOf (assignments fields)).isEmpty (sections fields) ++ [[]]) := by
  obtain ⟨ls, hls, rfl⟩ := render_eq_ok_iff.1 written
  obtain ⟨writable, flat, rfl⟩ := lines_eq_ok_iff.1 hls
  refine ⟨writable, flat, ?_⟩
  have own : ∀ f ∈ fields, OneLine f.2 := fun f hf => single.part (List.mem_map_of_mem hf)
  have each : ∀ p ∈ sections fields, (∀ g ∈ p.2, '\n' ∉ g.1.toList) ∧ ∀ g ∈ p.2, OneLine g.2 := fun p hp => by
    refine ⟨fun g hg => ((safe_sections declared fits hp).2 g hg).plain.2, fun g hg => ?_⟩
    obtain ⟨f, hf, he, -⟩ := mem_sections_iff.1 hp
    obtain ⟨type, -, -, fits⟩ := fits.exists_field hf
    obtain ⟨inner, -, -, occurs⟩ := record_of_entry fits he
    exact ((own f hf).sub occurs).part (List.mem_map_of_mem hg)
  rw [String.toList_ofList, splitLines_flatMap, List.append_assoc]
  exact List.forall_mem_append.2 ⟨no_lineFeed_linesOf (fun f hf => (safe_keys declared fits f hf).plain.2) own,
    no_lineFeed_layOut (fun p hp => (safe_sections declared fits hp).1.plain.2) each⟩

end Texts

end Settings
end AssetRecords
