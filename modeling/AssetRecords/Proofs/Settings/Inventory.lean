import AssetRecords.Proofs.Preorder
import AssetRecords.Proofs.Settings.RoundTrip
import Mathlib.Data.List.Perm.Basic
/-!
# Inventory — what the settings of a record hold

There are settings for a record of leaves and of records of leaves, all of them behind any number of present optionals,
and for nothing else (`exists_render_iff`).  What is written is one paragraph for the record's own leaves, if there are
any, and one for each of its records (`splitLines_of_paragraphs`); every leaf has its line (`leafTexts_perm`).
-/
namespace AssetRecords

/-- What a value is behind any number of present optionals. -/
def Value.core : Value → Value
  | .present _ v => v.core
  | v => v

namespace Settings

/-- The text that a leaf or an enum value has on its line. -/
def leafText? : Value → Option (List Char)
  | .leaf l => some l.chars
  | .enum table variant => (table.keyOf? variant).map String.toList
  | _ => none

def recordFields? : Value → Option (List (String × Value))
  | .record _ fields => some fields
  | _ => none

/-- Something that takes one line at most. -/
inductive FitsLine : Value → Prop where
  | absent {content : Shape} : FitsLine (.absent content)
  | leaf {l : Leaf} : (∀ c ∈ l.chars, c ≠ '\n' ∧ c ≠ '\r') → FitsLine (.leaf l)
  | enum {table : EnumTable} {variant : Nat} : variant ∈ table.rows.map (·.1) → FitsLine (.enum table variant)

/-- Something that takes one line or one section at most. -/
inductive FitsSection : Value → Prop where
  | line {v : Value} : FitsLine v → FitsSection v
  | record {name : String} {fields : List (String × Value)} :
    (∀ f ∈ fields, FitsLine f.2.core) → FitsSection (.record name fields)

/-- The keys and texts of the leaves among fields. -/
def leaves (fields : List (String × Value)) : List (String × List Char) :=
  fields.filterMap fun f => (leafText? f.2.core).map (f.1, ·)

/-- The keys and fields of the records among fields. -/
def records (fields : List (String × Value)) : List (String × List (String × Value)) :=
  fields.filterMap fun f => (recordFields? f.2.core).map (f.1, ·)

/-- The record's own leaves, if it has any, and then each of its records: a header and its leaves. -/
def paragraphs (fields : List (String × Value)) : List (List (List Char)) :=
  (if leaves fields = [] then [] else [linesOf (leaves fields)]) ++
    (records fields).map fun r => header r.1 :: linesOf (leaves r.2)

/-!
## What a field becomes
-/

section Entries

variable {v : Value}

theorem not_any_isLineBreak_iff {cs : List Char} :
    cs.any isLineBreak = false ↔ ∀ c ∈ cs, c ≠ '\n' ∧ c ≠ '\r' := by
  rw [List.any_eq_false]
  exact forall₂_congr fun c _ => by simp [isLineBreak]

theorem entry_core : ∀ v : Value, entry v.core = entry v
  | .present content v => by rw [Value.core, entry, entry_core v]
  | .leaf _ | .enum .. | .record .. | .tuple _ | .numbers .. | .sequence .. | .buffer _ | .absent _ => rfl

theorem entry_leaf_eq_line_iff {l : Leaf} {text : List Char} :
    entry (.leaf l) = .ok (.line text) ↔ FitsLine (.leaf l) ∧ l.chars = text := by
  rw [entry]
  by_cases broken : l.chars.any isLineBreak = true
  · rw [if_pos broken]
    constructor
    · rintro ⟨⟩
    · rintro ⟨fits, -⟩
      cases fits with
      | leaf unbroken =>
        rw [not_any_isLineBreak_iff.2 unbroken] at broken
        cases broken
  · rw [if_neg broken, Except.ok.injEq, Entry.line.injEq]
    have unbroken := not_any_isLineBreak_iff.1 (Bool.eq_false_iff.2 broken)
    exact (and_iff_right (.leaf unbroken)).symm

theorem entry_enum_eq_line_iff {table : EnumTable} {variant : Nat} {text : List Char} :
    entry (.enum table variant) = .ok (.line text) ↔
      FitsLine (.enum table variant) ∧ (table.keyOf? variant).map String.toList = some text := by
  rw [entry, Except.map_eq_ok_iff, EnumTable.key]
  cases found : table.keyOf? variant with
  | none =>
    constructor
    · rintro ⟨_, ⟨⟩, -⟩
    · rintro ⟨-, ⟨⟩⟩
  | some key =>
    have listed := mt EnumTable.keyOf?_eq_none_iff.2 (by rw [found]; exact Option.some_ne_none key)
    constructor
    · rintro ⟨_, ⟨⟩, ⟨⟩⟩
      exact ⟨.enum (not_not.1 listed), rfl⟩
    · rintro ⟨-, ⟨⟩⟩
      exact ⟨key, rfl, rfl⟩

theorem entry_eq_line_iff {text : List Char} :
    ∀ {v : Value}, entry v = .ok (.line text) ↔ FitsLine v.core ∧ leafText? v.core = some text
  | .present content v => by
    rw [entry, Value.core]
    exact entry_eq_line_iff
  | .leaf l => entry_leaf_eq_line_iff.trans (and_congr_right' (Option.some.injEq ..).to_iff.symm)
  | .enum table variant => entry_enum_eq_line_iff
  | .record .. | .tuple _ | .numbers .. | .sequence .. | .buffer _ | .absent _ => ⟨nofun, nofun⟩

theorem entry_eq_block_iff {inner : List (String × Value)} :
    entry v = .ok (.block inner) ↔ recordFields? v.core = some inner := by
  constructor
  · intro h
    induction v using Value.parts_induction with
    | step v ih =>
      obtain ⟨name, rfl⟩ | ⟨content, w, rfl, h⟩ := block_cases h
      · rfl
      · exact ih w List.mem_cons_self h
  · intro h
    rw [← entry_core]
    generalize v.core = core at h
    cases core <;> cases h
    rfl

theorem entry_eq_nothing_iff : entry v = .ok .nothing ↔ ∃ content, v.core = .absent content := by
  constructor
  · intro h
    induction v using Value.parts_induction with
    | step v ih =>
      obtain ⟨content, rfl⟩ | ⟨content, w, rfl, h⟩ := nothing_cases h
      · exact ⟨content, rfl⟩
      · exact ih w List.mem_cons_self h
  · rintro ⟨content, absent⟩
    rw [← entry_core, absent, entry]

theorem fitsLine_iff : FitsLine v.core ↔ ∃ e, entry v = .ok e ∧ ∀ inner, e ≠ .block inner := by
  constructor
  · intro fits
    cases found : leafText? v.core with
    | some text => exact ⟨.line text, entry_eq_line_iff.2 ⟨fits, found⟩, nofun⟩
    | none =>
      refine ⟨.nothing, entry_eq_nothing_iff.2 ?_, nofun⟩
      generalize v.core = core at fits found
      cases fits with
      | absent => exact ⟨_, rfl⟩
      | leaf => cases found
      | enum listed => exact absurd listed (EnumTable.keyOf?_eq_none_iff.1 (Option.map_eq_none_iff.1 found))
  · rintro ⟨e, he, leaf⟩
    cases e with
    | line text => exact (entry_eq_line_iff.1 he).1
    | block inner => exact absurd rfl (leaf inner)
    | nothing =>
      obtain ⟨content, absent⟩ := entry_eq_nothing_iff.1 he
      rw [absent]
      exact .absent

/-- A field fits if it becomes something, and if it becomes a section, what is in it takes one line each. -/
theorem fitsSection_iff : FitsSection v.core ↔
    (∃ e, entry v = .ok e) ∧ ∀ inner, entry v = .ok (.block inner) → Flat inner := by
  have flat {fields : List (String × Value)} : (∀ f ∈ fields, FitsLine f.2.core) ↔ Flat fields :=
    forall₂_congr fun _ _ => fitsLine_iff
  constructor
  · intro fits
    generalize same : v.core = core at fits
    cases fits with
    | line line =>
      obtain ⟨e, he, leaf⟩ := fitsLine_iff.1 (same ▸ line)
      refine ⟨⟨e, he⟩, fun inner h => ?_⟩
      rw [he, Except.ok.injEq] at h
      exact absurd h (leaf inner)
    | @record name fields each =>
      have block : entry v = .ok (.block fields) := entry_eq_block_iff.2 (by rw [same]; rfl)
      refine ⟨⟨_, block⟩, fun inner h => ?_⟩
      rw [block] at h
      cases h
      exact flat.1 each
  · rintro ⟨⟨e, he⟩, inside⟩
    cases e with
    | block inner =>
      have found := entry_eq_block_iff.1 he
      generalize v.core = core at found
      cases core with
      | record name fields =>
        cases found
        exact .record (flat.2 (inside inner he))
      | _ => cases found
    | _ => exact .line (fitsLine_iff.2 ⟨_, he, nofun⟩)

theorem blockOf?_eq (v : Value) : blockOf? v = recordFields? v.core :=
  Option.ext fun inner => by rw [blockOf?_eq_some_iff, entry_eq_block_iff]

theorem lineOf?_eq (writable : ∃ e, entry v = .ok e) : lineOf? v = leafText? v.core := by
  obtain ⟨e, he⟩ := writable
  refine Option.ext fun text => ?_
  rw [lineOf?_eq_some_iff, entry_eq_line_iff, and_iff_right_iff_imp]
  intro found
  refine fitsLine_iff.2 ⟨e, he, ?_⟩
  rintro inner rfl
  -- a record has no text
  have block := entry_eq_block_iff.1 he
  generalize v.core = core at found block
  cases core <;> cases block
  cases found

end Entries

/-!
## Lines
-/

section Lines

variable {fields : List (String × Value)}

theorem sections_eq (fields : List (String × Value)) : sections fields = records fields := by
  unfold sections records
  exact List.filterMap_congr fun f _ => by rw [blockOf?_eq]

theorem assignments_eq (writable : Writable fields) : assignments fields = leaves fields := by
  unfold assignments leaves
  exact List.filterMap_congr fun f hf => by rw [lineOf?_eq (writable f hf)]

theorem mem_records_iff {r : String × List (String × Value)} :
    r ∈ records fields ↔ ∃ f ∈ fields, entry f.2 = .ok (.block r.2) ∧ r.1 = f.1 := by
  rw [← sections_eq, mem_sections_iff]

theorem Flat.writable (flat : Flat fields) : Writable fields := fun f hf =>
  let ⟨e, he, _⟩ := flat f hf
  ⟨e, he⟩

/-- Sections with a blank line in front of each of them continue a paragraph. -/
theorem append_layOut_false (paragraph : List (List Char)) (ss : List (String × List (String × Value))) :
    paragraph ++ layOut false ss = [[]].intercalate (paragraph :: ss.map sectionLines) := by
  induction ss generalizing paragraph with
  | nil => rw [layOut, List.append_nil, List.map_nil, List.intercalate_singleton]
  | cons s rest ih =>
    rw [layOut, List.append_assoc, ih, List.map_cons, List.intercalate_cons_cons, List.append_assoc]
    rfl

theorem layOut_true (ss : List (String × List (String × Value))) :
    layOut true ss = [[]].intercalate (ss.map sectionLines) := by
  cases ss with
  | nil => rfl
  | cons s rest => exact append_layOut_false (sectionLines s) rest

/-- **A record that is written becomes its paragraphs**, with a blank line between each two of them. -/
theorem lines_eq_intercalate {name : String} {ls : List (List Char)} (written : lines (.record name fields) = .ok ls) :
    ls = [[]].intercalate (paragraphs fields) := by
  obtain ⟨writable, flat, rfl⟩ := lines_eq_ok_iff.1 written
  rw [sections_eq] at flat
  rw [assignments_eq writable, sections_eq, paragraphs]
  have blocks : (records fields).map sectionLines =
      (records fields).map fun r => header r.1 :: linesOf (leaves r.2) :=
    List.map_congr_left fun r hr => by rw [sectionLines, assignments_eq (flat r hr).writable]
  cases leaves fields with
  | nil => exact (layOut_true _).trans (congrArg _ blocks)
  | cons l rest =>
    rw [if_neg (List.cons_ne_nil _ _), ← blocks]
    exact append_layOut_false _ _

/-- There are settings for a record whose fields fit, and for nothing else. -/
theorem exists_render_iff {v : Value} :
    (∃ t, render v = .ok t) ↔ ∃ name fields, v = .record name fields ∧ ∀ f ∈ fields, FitsSection f.2.core := by
  have fits {name : String} {fields : List (String × Value)} :
      (∃ ls, lines (.record name fields) = .ok ls) ↔ ∀ f ∈ fields, FitsSection f.2.core := by
    simp only [lines_eq_ok_iff, fitsSection_iff, exists_and_left, exists_eq, and_true]
    constructor
    · rintro ⟨writable, flat⟩ f hf
      exact ⟨writable f hf, fun inner block => flat (f.1, inner) (mem_sections_iff.2 ⟨f, hf, block, rfl⟩)⟩
    · intro each
      refine ⟨fun f hf => (each f hf).1, fun s hs => ?_⟩
      obtain ⟨f, hf, block, -⟩ := mem_sections_iff.1 hs
      exact (each f hf).2 s.2 block
  constructor
  · rintro ⟨t, written⟩
    obtain ⟨ls, hls, -⟩ := render_eq_ok_iff.1 written
    cases v with
    | record name fields => exact ⟨name, fields, rfl, fits.1 ⟨ls, hls⟩⟩
    | _ => cases hls
  · rintro ⟨name, fields, rfl, each⟩
    obtain ⟨ls, hls⟩ := fits.2 each
    exact ⟨_, render_eq_ok_iff.2 ⟨ls, hls, rfl⟩⟩

/-- The keys in a value have no line feeds. -/
def PlainKeys (v : Value) : Prop :=
  ∀ name fields, (Value.record name fields).Occurs v → ∀ f ∈ fields, '\n' ∉ f.1.toList

/-- What `PlainKeys` asks of a value apart from its parts. -/
def hasPlainKeys : Value → Bool
  | .record _ fields => fields.all fun f => !f.1.toList.contains '\n'
  | _ => true

instance (v : Value) : Decidable (PlainKeys v) :=
  decidable_of_iff (v.all hasPlainKeys = true) (by
    rw [Value.all_eq_true_iff]
    constructor
    · intro h name fields occurs f hf
      have plain := h _ occurs
      rw [hasPlainKeys, List.all_eq_true] at plain
      simpa using plain f hf
    · intro h w occurs
      cases w with
      | record name fields =>
        rw [hasPlainKeys, List.all_eq_true]
        intro f hf
        simpa using h name fields occurs f hf
      | _ => rfl)

theorem occurs_of_entry_block {v : Value} {inner : List (String × Value)} (h : entry v = .ok (.block inner)) :
    ∃ name, (Value.record name inner).Occurs v := by
  induction v using Value.parts_induction with
  | step v ih =>
    obtain ⟨name, rfl⟩ | ⟨content, w, rfl, h⟩ := block_cases h
    · exact ⟨name, .self⟩
    · obtain ⟨name, occurs⟩ := ih w List.mem_cons_self h
      exact ⟨name, .part List.mem_cons_self occurs⟩

/-- **The lines of the text are those of the paragraphs**, with an empty one behind the last line feed. -/
theorem splitLines_of_paragraphs {name : String} {t : String} (written : render (.record name fields) = .ok t)
    (keys : PlainKeys (.record name fields)) (single : OneLine (.record name fields)) :
    splitLines t.toList = [[]].intercalate (paragraphs fields) ++ [[]] := by
  obtain ⟨ls, hls, rfl⟩ := render_eq_ok_iff.1 written
  rw [← lines_eq_intercalate hls, String.toList_ofList, splitLines_flatMap]
  obtain ⟨-, -, rfl⟩ := lines_eq_ok_iff.1 hls
  have own : ∀ f ∈ fields, OneLine f.2 := fun f hf => single.part (List.mem_map_of_mem hf)
  refine List.forall_mem_append.2 ⟨no_lineFeed_linesOf (keys name fields .self) own, no_lineFeed_layOut ?_ ?_⟩
  · intro p hp
    obtain ⟨f, hf, -, key⟩ := mem_sections_iff.1 hp
    exact key ▸ keys name fields .self f hf
  · intro p hp
    obtain ⟨f, hf, block, -⟩ := mem_sections_iff.1 hp
    obtain ⟨inner, occurs⟩ := occurs_of_entry_block block
    have within : (Value.record inner p.2).Occurs (.record name fields) := .part (List.mem_map_of_mem hf) occurs
    exact ⟨keys inner p.2 within, fun g hg => (single.sub within).part (List.mem_map_of_mem hg)⟩

end Lines

/-!
## Leaves
-/

section Leaves

variable {fields : List (String × Value)} {w : Value}

/-- The texts of all leaves that occur in a value, in the order of visiting. -/
def leafTexts (v : Value) : List (List Char) := v.preorder.filterMap leafText?

theorem leafTexts_eq (v : Value) : leafTexts v = (leafText? v).toList ++ v.parts.flatMap leafTexts := by
  rw [leafTexts, Value.preorder_eq, List.filterMap_cons, List.filterMap_flatMap]
  cases leafText? v <;> rfl

theorem leafTexts_core : ∀ v : Value, leafTexts v.core = leafTexts v
  | .present content v => by
    rw [Value.core, leafTexts_core v, leafTexts_eq (.present content v), Value.parts, List.flatMap_singleton]
    rfl
  | .leaf _ | .enum .. | .record .. | .tuple _ | .numbers .. | .sequence .. | .buffer _ | .absent _ => rfl

theorem leafTexts_record (name : String) (fields : List (String × Value)) :
    leafTexts (.record name fields) = fields.flatMap fun f => leafTexts f.2 := by
  rw [leafTexts_eq, Value.parts, List.flatMap_map]
  rfl

theorem leafTexts_of_fitsLine (fits : FitsLine w.core) : leafTexts w = (leafText? w.core).toList := by
  rw [← leafTexts_core]
  generalize w.core = core at fits
  rw [leafTexts_eq]
  cases fits <;> exact List.append_nil _

theorem map_snd_leaves (fields : List (String × Value)) :
    (leaves fields).map (·.2) = fields.flatMap fun f => (leafText? f.2.core).toList := by
  rw [leaves, List.map_filterMap, List.filterMap_eq_flatMap_toList]
  refine List.flatMap_congr fun f _ => ?_
  cases leafText? f.2.core <;> rfl

theorem leafTexts_of_fitsSection (fits : FitsSection w.core) : leafTexts w =
    (leafText? w.core).toList ++ (recordFields? w.core).toList.flatMap fun inner => (leaves inner).map (·.2) := by
  rw [← leafTexts_core]
  generalize w.core = core at fits
  cases fits with
  | line line =>
    rw [leafTexts_eq]
    cases line <;> rfl
  | @record name inner each =>
    rw [leafTexts_record, List.flatMap_congr fun f hf => leafTexts_of_fitsLine (each f hf), ← map_snd_leaves]
    exact (List.append_nil _).symm

/-- **Every leaf is written once**: the texts of all leaves are those of the lines, up to their order. -/
theorem leafTexts_perm {name : String} (each : ∀ f ∈ fields, FitsSection f.2.core) :
    (leafTexts (.record name fields)).Perm
      ((leaves fields).map (·.2) ++ (records fields).flatMap fun r => (leaves r.2).map (·.2)) := by
  have sections : ((records fields).flatMap fun r => (leaves r.2).map (·.2)) =
      fields.flatMap fun f => (recordFields? f.2.core).toList.flatMap fun inner => (leaves inner).map (·.2) := by
    rw [records, List.filterMap_eq_flatMap_toList, List.flatMap_assoc]
    refine List.flatMap_congr fun f _ => ?_
    cases recordFields? f.2.core <;> simp
  rw [leafTexts_record, List.flatMap_congr fun f hf => leafTexts_of_fitsSection (each f hf), map_snd_leaves, sections]
  exact (List.flatMap_append_perm _ _ _).symm

end Leaves

/-!
## Refusals
-/

section Refusals

variable {v : Value} {fields : List (String × Value)}

/-- Why a field of a section is refused. -/
def fault? (name : String) (f : String × Value) : Option Error :=
  match entry f.2 with
  | .ok (.block _) => some (.sectionNesting name f.1)
  | e => e.error?

theorem error?_split (fields : List (String × Value)) :
    (split fields).error? = fields.findSome? fun f => (entry f.2).error? := by
  induction fields with
  | nil => rfl
  | cons f rest ih =>
    obtain ⟨key, v⟩ := f
    rw [split, List.findSome?_cons]
    cases entry v with
    | error e => rfl
    | ok e =>
      cases e with
      | line text | block inner => exact (Except.error?_bind_pure _ _).trans ih
      | nothing => exact ih

theorem error?_blockLines (name : String) (fields : List (String × Value)) :
    (blockLines name fields).error? = fields.findSome? (fault? name) := by
  induction fields with
  | nil => rfl
  | cons f rest ih =>
    obtain ⟨key, v⟩ := f
    rw [blockLines, List.findSome?_cons, fault?]
    cases entry v with
    | error e => rfl
    | ok e =>
      cases e with
      | line text => exact (Except.error?_bind_pure _ _).trans ih
      | block inner => rfl
      | nothing => exact ih

theorem error?_blocks (atStart : Bool) (ss : List (String × List (String × Value))) :
    (blocks atStart ss).error? = ss.findSome? fun s => s.2.findSome? (fault? s.1) := by
  induction ss generalizing atStart with
  | nil => rfl
  | cons s rest ih =>
    rw [blocks, Except.error?_bind fun _ => Except.error?_bind_pure _ _, error?_blockLines, ih, List.findSome?_cons]
    cases s.2.findSome? (fault? s.1) <;> rfl

/-- **All fields of the root are looked at before any section.** -/
theorem error?_render (name : String) (fields : List (String × Value)) : (render (.record name fields)).error? =
    (fields.findSome? fun f => (entry f.2).error?).or
      ((records fields).findSome? fun r => r.2.findSome? (fault? r.1)) := by
  rw [render, Except.error?_bind_pure, lines, ← error?_split]
  cases h : split fields with
  | error e => rfl
  | ok r =>
    obtain ⟨-, rfl⟩ := split_eq_ok_iff.1 h
    exact (Except.error?_bind_pure _ _).trans ((error?_blocks _ _).trans (by rw [sections_eq]; rfl))

theorem entry_ne_sectionNesting {s f : String} : entry v ≠ .error (.sectionNesting s f) := by
  induction v using Value.parts_induction with
  | step v ih =>
    cases v with
    | leaf l =>
      rw [entry]
      split <;> rintro ⟨⟩
    | enum table variant =>
      rw [entry, EnumTable.key]
      cases table.keyOf? variant <;> rintro ⟨⟩
    | present content w => exact ih w List.mem_cons_self
    | _ => rintro ⟨⟩

/-- A record is told to be nested where it is, after all fields of the root have been found to fit. -/
theorem nested_of_render {s f : String} (h : render v = .error (.sectionNesting s f)) :
    ∃ name fields u inner w, v = .record name fields ∧ (s, u) ∈ fields ∧ recordFields? u.core = some inner ∧
      (f, w) ∈ inner ∧ (recordFields? w.core).isSome ∧
      ∀ g ∈ fields, FitsLine g.2.core ∨ (recordFields? g.2.core).isSome := by
  cases v with
  | record name fields =>
    rw [← Except.error?_eq_some_iff, error?_render, Option.or_eq_some_iff] at h
    obtain h | ⟨classified, h⟩ := h
    · obtain ⟨g, -, refused⟩ := List.exists_of_findSome?_eq_some h
      exact absurd (Except.error?_eq_some_iff.1 refused) entry_ne_sectionNesting
    · obtain ⟨r, hr, h⟩ := List.exists_of_findSome?_eq_some h
      obtain ⟨g, hg, h⟩ := List.exists_of_findSome?_eq_some h
      obtain ⟨u, hu, block, key⟩ := mem_records_iff.1 hr
      unfold fault? at h
      split at h
      · rename_i inner nested
        cases h
        refine ⟨name, fields, u.2, r.2, g.2, rfl, key ▸ hu, entry_eq_block_iff.1 block, hg, ?_, fun w hw => ?_⟩
        · rw [entry_eq_block_iff.1 nested]
          rfl
        · obtain ⟨e, he⟩ := Except.error?_eq_none_iff.1 (List.findSome?_eq_none_iff.1 classified w hw)
          cases e with
          | block inner => exact .inr (by rw [entry_eq_block_iff.1 he]; rfl)
          | _ => exact .inl (fitsLine_iff.2 ⟨_, he, nofun⟩)
      · exact absurd (Except.error?_eq_some_iff.1 h) entry_ne_sectionNesting
  | _ => cases h

end Refusals

/-- **There are settings for exactly one level of nesting.**  A value has settings if and only if it is a record whose
fields are, behind optionals, absent, texts of one line, listed enum values or records of such fields.  Its settings
are the record's own leaves and a section for each record, in order, and every leaf has its line.  A record is told to
be nested only where one is. -/
theorem one_level_of_nesting (v : Value) :
    ((∃ t, render v = .ok t) ↔ ∃ name fields, v = .record name fields ∧ ∀ f ∈ fields, FitsSection f.2.core) ∧
    (∀ name fields t, v = .record name fields → render v = .ok t →
      (leafTexts v).Perm ((leaves fields).map (·.2) ++ (records fields).flatMap fun r => (leaves r.2).map (·.2)) ∧
      (PlainKeys v → OneLine v → splitLines t.toList = [[]].intercalate (paragraphs fields) ++ [[]])) ∧
    ∀ s f, render v = .error (.sectionNesting s f) → ∃ name fields u inner w, v = .record name fields ∧
      (s, u) ∈ fields ∧ recordFields? u.core = some inner ∧ (f, w) ∈ inner ∧ (recordFields? w.core).isSome ∧
      ∀ g ∈ fields, FitsLine g.2.core ∨ (recordFields? g.2.core).isSome := by
  refine ⟨exists_render_iff, ?_, fun s f => nested_of_render⟩
  rintro name fields t rfl written
  obtain ⟨_, _, ⟨⟩, each⟩ := exists_render_iff.1 ⟨t, written⟩
  exact ⟨leafTexts_perm each, splitLines_of_paragraphs written⟩

/-- The settings of a station, and a station whose dial has a dial. -/
theorem one_level_of_nesting_station :
    (∃ t, render (station "up" "b") = .ok t ∧ splitLines t.toList = [[]].intercalate
      [["motto=up".toList, "kind=moving".toList, "gain=1.5".toList, "level=-7".toList],
        ["[dial]".toList, "width=7".toList, "label=b".toList], ["[spare]".toList, "width=9".toList, "label=".toList],
        ["[notes]".toList]] ++ [[]]) ∧
    ∃ name fields u inner w,
      Value.record "Station" [("dial", .record "Dial" [("dial", dial 7 "b")])] = .record name fields ∧
      ("dial", u) ∈ fields ∧ recordFields? u.core = some inner ∧ ("dial", w) ∈ inner ∧ (recordFields? w.core).isSome ∧
      ∀ g ∈ fields, FitsLine g.2.core ∨ (recordFields? g.2.core).isSome := by
  constructor
  · obtain ⟨t, written⟩ := Except.exists_of_isOk (show (render (station "up" "b")).isOk = true by decide +kernel)
    have inventory := ((one_level_of_nesting (station "up" "b")).2.1 _ _ t rfl written).2
    exact ⟨t, written, (inventory (by decide +kernel) (by decide +kernel)).trans (by decide +kernel)⟩
  · exact (one_level_of_nesting _).2.2 "dial" "dial" (Except.error?_eq_some_iff.1 (by decide +kernel))

end Settings
end AssetRecords
