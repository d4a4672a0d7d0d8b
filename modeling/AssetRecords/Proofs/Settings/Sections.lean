import AssetRecords.Proofs.Settings.Lines
/-!
# Sections — runs of lines

What is written is a run of assignments for the root and then, for each section, its header and a run of assignments
(`lines_eq_ok_iff`).  To read a run of assignments is to settle the fields that it names, in the root
(`readLines_root`) or in the record of a section (`readLines_block`); a header opens the field of its key if that can
take lines (`turn_eq`), so that a section changes its own field and no other (`readLines_section`).
-/
namespace AssetRecords

namespace Settings

/-!
## What is written
-/

/-- The text of a value that is written as a line. -/
def lineOf? (v : Value) : Option (List Char) :=
  match entry v with
  | .ok (.line text) => some text
  | _ => none

/-- The fields of a value that is written as a section. -/
def blockOf? (v : Value) : Option (List (String × Value)) :=
  match entry v with
  | .ok (.block fields) => some fields
  | _ => none

/-- The keys and texts of the lines that fields become. -/
def assignments (fields : List (String × Value)) : List (String × List Char) :=
  fields.filterMap fun f => (lineOf? f.2).map (f.1, ·)

/-- The keys and fields of the sections that fields become. -/
def sections (fields : List (String × Value)) : List (String × List (String × Value)) :=
  fields.filterMap fun f => (blockOf? f.2).map (f.1, ·)

def linesOf (ms : List (String × List Char)) : List (List Char) := ms.map fun m => assignment m.1 m.2

def sectionLines (s : String × List (String × Value)) : List (List Char) := header s.1 :: linesOf (assignments s.2)

def layOut (atStart : Bool) : List (String × List (String × Value)) → List (List Char)
  | [] => []
  | s :: rest => (if atStart then [] else [[]]) ++ sectionLines s ++ layOut false rest

/-- Each field can be written. -/
def Writable (fields : List (String × Value)) : Prop := ∀ f ∈ fields, ∃ e, entry f.2 = .ok e

/-- Each field can be written, and none as a section. -/
def Flat (fields : List (String × Value)) : Prop := ∀ f ∈ fields, ∃ e, entry f.2 = .ok e ∧ ∀ inner, e ≠ .block inner

theorem split_eq_ok_iff {fields : List (String × Value)}
    {r : List (List Char) × List (String × List (String × Value))} :
    split fields = .ok r ↔ Writable fields ∧ r = (linesOf (assignments fields), sections fields) := by
  induction fields generalizing r with
  | nil => exact ⟨fun h => ⟨nofun, by cases h; rfl⟩, fun h => by rw [h.2]; rfl⟩
  | cons f rest ih =>
    obtain ⟨key, v⟩ := f
    rw [split, Except.bind_eq_ok_iff, Writable, List.forall_mem_cons, assignments, sections, List.filterMap_cons,
      List.filterMap_cons, lineOf?, blockOf?]
    constructor
    · rintro ⟨e, he, h⟩
      rw [he]
      cases e with
      | line text | block inner =>
        obtain ⟨r', hr', ⟨⟩⟩ := Except.bind_eq_ok_iff.1 h
        obtain ⟨all, rfl⟩ := ih.1 hr'
        exact ⟨⟨⟨_, rfl⟩, all⟩, rfl⟩
      | nothing =>
        obtain ⟨all, rfl⟩ := ih.1 h
        exact ⟨⟨⟨_, rfl⟩, all⟩, rfl⟩
    · rintro ⟨⟨⟨e, he⟩, all⟩, rfl⟩
      refine ⟨e, he, ?_⟩
      rw [he]
      have tail := ih.2 ⟨all, rfl⟩
      cases e with
      | line text | block inner => exact Except.bind_eq_ok_iff.2 ⟨_, tail, rfl⟩
      | nothing => exact tail

theorem blockLines_eq_ok_iff {name : String} {fields : List (String × Value)} {ls : List (List Char)} :
    blockLines name fields = .ok ls ↔ Flat fields ∧ ls = linesOf (assignments fields) := by
  induction fields generalizing ls with
  | nil => exact ⟨fun h => ⟨nofun, by cases h; rfl⟩, fun h => by rw [h.2]; rfl⟩
  | cons f rest ih =>
    obtain ⟨key, v⟩ := f
    rw [blockLines, Except.bind_eq_ok_iff, Flat, List.forall_mem_cons, assignments, List.filterMap_cons, lineOf?]
    constructor
    · rintro ⟨e, he, h⟩
      rw [he]
      cases e with
      | line text =>
        obtain ⟨ls', hls', ⟨⟩⟩ := Except.bind_eq_ok_iff.1 h
        obtain ⟨all, rfl⟩ := ih.1 hls'
        exact ⟨⟨⟨_, rfl, nofun⟩, all⟩, rfl⟩
      | block inner => cases h
      | nothing =>
        obtain ⟨all, rfl⟩ := ih.1 h
        exact ⟨⟨⟨_, rfl, nofun⟩, all⟩, rfl⟩
    · rintro ⟨⟨⟨e, he, leaf⟩, all⟩, rfl⟩
      refine ⟨e, he, ?_⟩
      rw [he]
      have tail := ih.2 ⟨all, rfl⟩
      cases e with
      | line text => exact Except.bind_eq_ok_iff.2 ⟨_, tail, rfl⟩
      | block inner => exact absurd rfl (leaf inner)
      | nothing => exact tail

theorem blocks_eq_ok_iff {ss : List (String × List (String × Value))} : ∀ {atStart : Bool} {ls : List (List Char)},
    blocks atStart ss = .ok ls ↔ (∀ s ∈ ss, Flat s.2) ∧ ls = layOut atStart ss := by
  induction ss with
  | nil => exact fun {_ _} => ⟨fun h => ⟨nofun, by cases h; rfl⟩, fun h => by rw [h.2]; rfl⟩
  | cons s rest ih =>
    intro atStart ls
    obtain ⟨name, fields⟩ := s
    rw [blocks, Except.bind_eq_ok_iff, List.forall_mem_cons, layOut]
    constructor
    · rintro ⟨body, hbody, h⟩
      obtain ⟨after, hafter, ⟨⟩⟩ := Except.bind_eq_ok_iff.1 h
      obtain ⟨flat, rfl⟩ := blockLines_eq_ok_iff.1 hbody
      obtain ⟨all, rfl⟩ := ih.1 hafter
      exact ⟨⟨flat, all⟩, rfl⟩
    · rintro ⟨⟨flat, all⟩, rfl⟩
      exact ⟨_, blockLines_eq_ok_iff.2 ⟨flat, rfl⟩, Except.bind_eq_ok_iff.2 ⟨_, ih.2 ⟨all, rfl⟩, rfl⟩⟩

/-- **A record is written as its own leaves and then its records**, if every field can be written and no record has
records of its own. -/
theorem lines_eq_ok_iff {name : String} {fields : List (String × Value)} {ls : List (List Char)} :
    lines (.record name fields) = .ok ls ↔ Writable fields ∧ (∀ s ∈ sections fields, Flat s.2) ∧
      ls = linesOf (assignments fields) ++ layOut (linesOf (assignments fields)).isEmpty (sections fields) := by
  rw [lines, Except.bind_eq_ok_iff]
  constructor
  · rintro ⟨r, hr, h⟩
    obtain ⟨writable, rfl⟩ := split_eq_ok_iff.1 hr
    obtain ⟨after, hafter, ⟨⟩⟩ := Except.bind_eq_ok_iff.1 h
    obtain ⟨flat, rfl⟩ := blocks_eq_ok_iff.1 hafter
    exact ⟨writable, flat, rfl⟩
  · rintro ⟨writable, flat, rfl⟩
    exact ⟨_, split_eq_ok_iff.2 ⟨writable, rfl⟩,
      Except.bind_eq_ok_iff.2 ⟨_, blocks_eq_ok_iff.2 ⟨flat, rfl⟩, rfl⟩⟩

/-!
## What is read
-/

/-- A value after a line of its key with a text behind the equals sign. -/
def store (old : Value) (text : List Char) : Except Error Value := parse old.shape (Text.trim text)

def storeAll (ms : List (String × List Char)) (fields : List (String × Value)) :
    Except Error (List (String × Value)) :=
  ms.foldlM (fun fields m => Fields.update m.1 (fun v => store v m.2) fields) fields

theorem assign_eq_ok_iff {offset : Nat} {key : String} {text : List Char} {fields fields' : List (String × Value)} :
    assign offset key (Text.trim text) fields = .ok fields' ↔
      Fields.update key (fun v => store v text) fields = .ok fields' := by
  unfold assign store
  cases Fields.update key (fun old => parse old.shape (Text.trim text)) fields with
  | error e => exact ⟨nofun, nofun⟩
  | ok fields => rfl

variable {S : Schema}

/-- Assignments in the root settle its fields. -/
theorem readLines_root {ms : List (String × List Char)} (safe : ∀ m ∈ ms, SafeKey m.1) :
    ∀ {offset : Nat} {fields : List (String × Value)} {s' : State},
      readLines S offset (linesOf ms) ⟨fields, .root⟩ = .ok s' ↔
        ∃ fields', storeAll ms fields = .ok fields' ∧ s' = ⟨fields', .root⟩ := by
  induction ms with
  | nil =>
    intro offset fields s'
    exact ⟨fun h => ⟨fields, rfl, by cases h; rfl⟩, fun ⟨_, h, h'⟩ => by cases h; rw [h']; rfl⟩
  | cons m ms ih =>
    intro offset fields s'
    obtain ⟨here, rest⟩ := List.forall_mem_cons.1 safe
    rw [linesOf, List.map_cons, readLines, readLine_assignment here, storeAll, List.foldlM_cons]
    simp only [Except.bind_eq_ok_iff, State.take, Except.map_eq_ok_iff, assign_eq_ok_iff]
    constructor
    · rintro ⟨_, ⟨next, updated, rfl⟩, h⟩
      obtain ⟨fields', stored, rfl⟩ := (ih rest).1 h
      exact ⟨fields', ⟨next, updated, stored⟩, rfl⟩
    · rintro ⟨fields', ⟨next, updated, stored⟩, rfl⟩
      exact ⟨_, ⟨next, updated, rfl⟩, (ih rest).2 ⟨fields', stored, rfl⟩⟩

theorem updateBlock_bind (change change' : List (String × Value) → Except Error (List (String × Value))) (v : Value) :
    updateBlock change v >>= updateBlock change' = updateBlock (fun fields => change fields >>= change') v := by
  cases v with
  | record name fields =>
    simp only [updateBlock]
    cases change fields <;> rfl
  | present content w =>
    cases w with
    | record name fields =>
      simp only [updateBlock]
      cases change fields <;> rfl
    | _ => rfl
  | _ => rfl

theorem updateBlock_eq_ok_congr {change change' : List (String × Value) → Except Error (List (String × Value))}
    (h : ∀ fields fields', change fields = .ok fields' ↔ change' fields = .ok fields') (v v' : Value) :
    updateBlock change v = .ok v' ↔ updateBlock change' v = .ok v' := by
  cases v with
  | record name fields => simp only [updateBlock, Except.map_eq_ok_iff, h]
  | present content w =>
    cases w with
    | record name fields => simp only [updateBlock, Except.map_eq_ok_iff, h]
    | _ => rfl
  | _ => rfl

/-- A change that is none changes no record. -/
theorem updateBlock_pure (v : Value) : updateBlock .ok v = .ok v := by
  cases v with
  | present content w => cases w <;> rfl
  | _ => rfl

/-- Assignments in a section settle the fields of its record. -/
theorem readLines_block {name : String} {ms : List (String × List Char)} (safe : ∀ m ∈ ms, SafeKey m.1) :
    ∀ {offset : Nat} {fields : List (String × Value)} {s' : State},
      readLines S offset (linesOf ms) ⟨fields, .block name⟩ = .ok s' ↔
        ∃ fields', Fields.update name (updateBlock (storeAll ms)) fields = .ok fields' ∧
          s' = ⟨fields', .block name⟩ := by
  induction ms with
  | nil =>
    intro offset fields s'
    have none : Fields.update name (updateBlock (storeAll [])) fields = .ok fields :=
      Fields.update_self fun v _ => updateBlock_pure v
    rw [none]
    exact ⟨fun h => ⟨fields, rfl, by cases h; rfl⟩, fun ⟨_, h, h'⟩ => by cases h; rw [h']; rfl⟩
  | cons m ms ih =>
    intro offset fields s'
    obtain ⟨here, rest⟩ := List.forall_mem_cons.1 safe
    have two : Fields.update name (updateBlock (storeAll (m :: ms))) fields =
        Fields.update name (updateBlock (Fields.update m.1 fun v => store v m.2)) fields >>=
          Fields.update name (updateBlock (storeAll ms)) := by
      rw [Fields.update_bind]
      exact Fields.update_congr fun v _ => (updateBlock_bind _ _ v).symm
    have first : ∀ next, Fields.update name (updateBlock (assign offset m.1 (Text.trim m.2))) fields = .ok next ↔
        Fields.update name (updateBlock (Fields.update m.1 fun v => store v m.2)) fields = .ok next := fun next =>
      Fields.update_eq_ok_congr fun v v' => updateBlock_eq_ok_congr (fun _ _ => assign_eq_ok_iff) v v'
    rw [linesOf, List.map_cons, readLines, readLine_assignment here, two]
    simp only [Except.bind_eq_ok_iff, State.take, Except.map_eq_ok_iff, first]
    constructor
    · rintro ⟨_, ⟨next, updated, rfl⟩, h⟩
      obtain ⟨fields', stored, rfl⟩ := (ih rest).1 h
      exact ⟨fields', ⟨next, updated, stored⟩, rfl⟩
    · rintro ⟨fields', ⟨next, updated, stored⟩, rfl⟩
      exact ⟨_, ⟨next, updated, rfl⟩, (ih rest).2 ⟨fields', stored, rfl⟩⟩

/-- Assignments that go nowhere change nothing. -/
theorem readLines_nowhere {ms : List (String × List Char)} (safe : ∀ m ∈ ms, SafeKey m.1) :
    ∀ {offset : Nat} {fields : List (String × Value)},
      readLines S offset (linesOf ms) ⟨fields, .nowhere⟩ = .ok ⟨fields, .nowhere⟩ := by
  induction ms with
  | nil => exact fun {_ _} => rfl
  | cons m ms ih =>
    intro offset fields
    obtain ⟨here, rest⟩ := List.forall_mem_cons.1 safe
    rw [linesOf, List.map_cons, readLines, readLine_assignment here]
    exact ih rest

/-- A value once a header has named its field. -/
def opened (S : Schema) (v : Value) : Value := (openBlock? S v).getD v

/-- Where lines go behind a header. -/
def landing (S : Schema) (key : String) (fields : List (String × Value)) : Target :=
  if ((Fields.find? key fields).bind (openBlock? S)).isSome then .block key else .nowhere

/-- A header opens the field of its key and no other. -/
theorem turn_eq (key : String) (s : State) :
    turn S key s = (⟨·, landing S key s.fields⟩) <$> Fields.update key (fun v => .ok (opened S v)) s.fields := by
  unfold turn landing
  cases found : (Fields.find? key s.fields).bind (openBlock? S) with
  | none =>
    rw [Fields.update_self fun v hv => ?_]
    · rfl
    · rw [hv, Option.bind_some] at found
      rw [opened, found]
      rfl
  | some v =>
    have same : Fields.update key (fun _ => .ok v) s.fields = Fields.update key (fun v => .ok (opened S v)) s.fields :=
      Fields.update_congr fun w hw => by
        rw [hw, Option.bind_some] at found
        rw [opened, found]
        rfl
    rw [← same]
    simp only [Option.isSome_some, if_true]
    cases Fields.update key (fun _ => .ok v) s.fields <;> rfl

/-- A value once a section of its field is read. -/
def readSection (S : Schema) (v : Value) (inner : List (String × Value)) : Except Error Value :=
  match openBlock? S v with
  | some v => updateBlock (storeAll (assignments inner)) v
  | none => .ok v

/-- **A section changes the field of its key and no other.** -/
theorem readLines_section {part : String × List (String × Value)} (safe : SafeKey part.1)
    (safe' : ∀ m ∈ assignments part.2, SafeKey m.1) {offset : Nat} {s : State} {fields' : List (String × Value)}
    (h : Fields.update part.1 (fun v => readSection S v part.2) s.fields = .ok fields') :
    ∃ target, readLines S offset (sectionLines part) s = .ok ⟨fields', target⟩ := by
  rw [sectionLines, readLines, readLine_header safe, turn_eq]
  cases found : (Fields.find? part.1 s.fields).bind (openBlock? S) with
  | none =>
    have still : ∀ v, Fields.find? part.1 s.fields = some v → openBlock? S v = none := fun v hv => by
      rwa [hv, Option.bind_some] at found
    rw [Fields.update_self fun v hv => by rw [readSection, still v hv]] at h
    rw [Fields.update_self fun v hv => by rw [opened, still v hv, Option.getD_none], landing, found]
    cases h
    exact ⟨.nowhere, readLines_nowhere safe'⟩
  | some w =>
    have two : Fields.update part.1 (fun v => readSection S v part.2) s.fields =
        Fields.update part.1 (fun v => .ok (opened S v)) s.fields >>=
          Fields.update part.1 (updateBlock (storeAll (assignments part.2))) := by
      rw [Fields.update_bind]
      refine Fields.update_congr fun v hv => ?_
      rw [hv, Option.bind_some] at found
      rw [readSection, opened, found]
      rfl
    rw [two, Except.bind_eq_ok_iff] at h
    obtain ⟨next, turned, stored⟩ := h
    rw [turned, landing, found]
    exact ⟨.block part.1, (readLines_block safe').2 ⟨fields', stored, rfl⟩⟩

/-- Sections one after the other settle the fields of their keys. -/
theorem readLines_layOut {parts : List (String × List (String × Value))} (safe : ∀ p ∈ parts, SafeKey p.1)
    (safe' : ∀ p ∈ parts, ∀ m ∈ assignments p.2, SafeKey m.1) {fields' : List (String × Value)} :
    ∀ {atStart : Bool} {offset : Nat} {s : State},
      parts.foldlM (fun fields p => Fields.update p.1 (fun v => readSection S v p.2) fields) s.fields = .ok fields' →
        ∃ target, readLines S offset (layOut atStart parts) s = .ok ⟨fields', target⟩ := by
  induction parts with
  | nil =>
    rintro atStart offset s ⟨⟩
    exact ⟨s.target, rfl⟩
  | cons p parts ih =>
    intro atStart offset s h
    obtain ⟨here, rest⟩ := List.forall_mem_cons.1 safe
    obtain ⟨here', rest'⟩ := List.forall_mem_cons.1 safe'
    rw [List.foldlM_cons] at h
    obtain ⟨next, updated, h⟩ := Except.bind_eq_ok_iff.1 h
    have blank : readLines S offset (if atStart then [] else [[]]) s = .ok s := by cases atStart <;> rfl
    obtain ⟨target, here⟩ := readLines_section here here' updated
    obtain ⟨target', behind⟩ := ih rest rest' (s := ⟨next, target⟩) h
    refine ⟨target', ?_⟩
    rw [layOut, readLines_append, readLines_append, blank]
    show (readLines S _ (sectionLines p) s >>= _) = _
    rw [here]
    exact behind

end Settings
end AssetRecords
