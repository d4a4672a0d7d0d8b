import AssetRecords.Proofs.Settings.Typing
/-!
# Headers — what is written as a section, and what is read as one

The writer takes a record for a section however many optionals are around it; the reader looks through one optional and
no more.  So a section is read into its field if there is at most one optional around its record, and is passed over
without a word if there are more (`header_of_render`).
-/
namespace AssetRecords

/-- How many present optionals are around what a value is. -/
def Value.layers : Value → Nat
  | .present _ v => v.layers + 1
  | _ => 0

/-- The record type of which a shape is, or is an optional. -/
def Shape.record? : Shape → Option String
  | .record name | .optional (.record name) => some name
  | _ => none

namespace Settings

/-- The fields of the record that a value is or holds. -/
def block? : Value → Option (List (String × Value))
  | .record _ fields | .present _ (.record _ fields) => some fields
  | _ => none

variable {S : Schema}

/-!
## Shapes
-/

section Shapes

variable {v w : Value} {shape : Shape} {inner block : List (String × Value)}

/-- What is written as a section is of a shape that can take lines if no more than one optional is around it. -/
theorem isSome_record?_iff (fits : S.HasShape v shape) (h : entry v = .ok (.block inner)) :
    shape.record?.isSome = true ↔ v.layers ≤ 1 := by
  obtain ⟨name, rfl⟩ | ⟨content, w, rfl, within⟩ := block_cases h
  · cases fits
    exact ⟨fun _ => Nat.zero_le 1, fun _ => rfl⟩
  · cases fits with
    | present fits =>
      rw [Value.layers]
      obtain ⟨name, rfl⟩ | ⟨content, w, rfl, -⟩ := block_cases within
      · cases fits
        exact ⟨fun _ => Nat.le_refl 1, fun _ => rfl⟩
      · cases fits
        rw [Value.layers]
        exact ⟨fun h => absurd h Bool.false_ne_true, fun h => by omega⟩

theorem block?_of_entry (h : entry v = .ok (.block inner)) (few : v.layers ≤ 1) : block? v = some inner := by
  obtain ⟨name, rfl⟩ | ⟨content, w, rfl, within⟩ := block_cases h
  · rfl
  · obtain ⟨name, rfl⟩ | ⟨content, w, rfl, -⟩ := block_cases within
    · rfl
    · rw [Value.layers, Value.layers] at few
      omega

/-- A header opens the fields of such shapes and no others. -/
theorem isSome_openBlock? (fits : S.HasShape v shape) : (openBlock? S v).isSome = shape.record?.isSome := by
  cases fits with
  | absent content =>
    rw [openBlock?]
    cases content <;> rw [Schema.initial] <;> rfl
  | present fits => cases fits <;> rfl
  | _ => rfl

theorem exists_block_of_openBlock? (h : openBlock? S v = some w) : ∃ block, block? w = some block := by
  cases v with
  | record name fields =>
    cases h
    exact ⟨fields, rfl⟩
  | absent content =>
    rw [openBlock?] at h
    split at h
    · rename_i name fields _
      cases h
      exact ⟨fields, rfl⟩
    · cases h
  | present content v =>
    cases v with
    | record name fields =>
      cases h
      exact ⟨fields, rfl⟩
    | _ => cases h
  | _ => cases h

/-- The keys of a record that a value is or holds are told by the shape of the value. -/
theorem keys_of_block? (fits : S.HasShape v shape) (h : block? v = some block) :
    ∃ name, shape.record? = some name ∧ block.map (·.1) = (S.fieldsOf name).map (·.key) := by
  cases fits with
  | record keys =>
    cases h
    exact ⟨_, rfl, keys⟩
  | present fits =>
    cases fits with
    | record keys =>
      cases h
      exact ⟨_, rfl, keys⟩
    | _ => cases h
  | _ => cases h

theorem keys_eq_of_block? (fits : S.HasShape v shape) (hv : block? v = some inner) (fits' : S.HasShape w shape)
    (hw : block? w = some block) : block.map (·.1) = inner.map (·.1) := by
  obtain ⟨name, record, keys⟩ := keys_of_block? fits hv
  obtain ⟨name', record', keys'⟩ := keys_of_block? fits' hw
  rw [record] at record'
  cases record'
  exact keys'.trans keys.symm

end Shapes

/-!
## Fields
-/

section Fields

variable {key : String} {u : Value} {name : String} {fields block : List (String × Value)}

/-- A change to a value is a change to the record that it is or holds. -/
theorem updateBlock_eq (inside : block? u = some block)
    (change : List (String × Value) → Except Error (List (String × Value))) :
    updateBlock change u = change block >>= fun block' => updateBlock (fun _ => .ok block') u := by
  cases u with
  | record name fields =>
    cases inside
    simp only [updateBlock]
    cases change block <;> rfl
  | present content w =>
    cases w with
    | record name fields =>
      cases inside
      simp only [updateBlock]
      cases change block <;> rfl
    | _ => cases inside
  | _ => cases inside

/-- A change to a field is a change to the record that it is or holds. -/
theorem update_updateBlock (found : Fields.find? key fields = some u) (inside : block? u = some block)
    (change : List (String × Value) → Except Error (List (String × Value))) :
    Fields.update key (updateBlock change) fields =
      change block >>= fun block' => Fields.update key (updateBlock fun _ => .ok block') fields := by
  induction fields with
  | nil => cases found
  | cons f rest ih =>
    rw [Fields.find?, lookup_cons_eq_ite] at found
    by_cases here : key = f.1
    · rw [if_pos here] at found
      cases found
      have held : ∀ change', Fields.update key (updateBlock change') (f :: rest) =
          (fun v => (f.1, v) :: rest) <$> updateBlock change' f.2 := fun change' => by
        rw [Fields.update, if_pos here.symm]
      rw [held]
      simp only [held]
      rw [updateBlock_eq inside]
      cases change block <;> rfl
    · rw [if_neg here] at found
      have skipped : ∀ change', Fields.update key (updateBlock change') (f :: rest) =
          (f :: ·) <$> Fields.update key (updateBlock change') rest := fun change' => by
        rw [Fields.update, if_neg (Ne.symm here)]
      rw [skipped, ih found]
      simp only [skipped]
      cases change block <;> rfl

/-- Where the lines of a section go once its header has opened a field: each is assigned in the record that the field is
or holds, which has the key of each of them. -/
structure Receives (S : Schema) (key : String) (inner : List (String × Value)) (s : State) : Prop where
  target : s.target = .block key
  block : ∃ block, (Fields.find? key s.fields).bind block? = some block ∧ block.map (·.1) = inner.map (·.1) ∧
    ∀ offset s', readLines S offset (linesOf (assignments inner)) s = .ok s' ↔ s'.target = .block key ∧
      ∃ block', storeAll (assignments inner) block = .ok block' ∧
        Fields.update key (updateBlock fun _ => .ok block') s.fields = .ok s'.fields

end Fields

/-!
## Headers
-/

section Headers

variable {name t : String} {fields inner : List (String × Value)} {f : String × Value} {s : State}

/-- Sections stand with their lines in the text. -/
theorem exists_sectionLines {p : String × List (String × Value)} : ∀ {parts : List (String × List (String × Value))},
    p ∈ parts → ∀ atStart, ∃ before after, layOut atStart parts = before ++ (sectionLines p ++ after)
  | p' :: parts, hp, atStart => by
    rcases List.mem_cons.1 hp with rfl | hp
    · exact ⟨if atStart then [] else [[]], layOut false parts, by rw [layOut, List.append_assoc]⟩
    · obtain ⟨before, after, behind⟩ := exists_sectionLines hp false
      refine ⟨(if atStart then [] else [[]]) ++ sectionLines p' ++ before, after, ?_⟩
      simp only [layOut, behind, List.append_assoc]

/-- A field of a record type is found in the records of the type. -/
theorem find?_of_hasShape (declared : Declared S (.record name)) (fits : S.HasShape (.record name fields) (.record name))
    {type : FieldType} (htype : type ∈ S.fieldsOf name) :
    ∃ u, Fields.find? type.key fields = some u ∧ S.HasShape u type.shape := by
  obtain ⟨g, hg, key, fits'⟩ := exists_of_mem_forall₂ fits.fields htype
  exact ⟨g.2, by rw [← key, Fields.find?, lookup_of_mem (nodup_keys declared fits) hg], fits'⟩

/-- Behind a header of a field that can take lines they are assigned in it. -/
theorem receives_of_openBlock? {key : String} {u w : Value} {block : List (String × Value)}
    (found : Fields.find? key s.fields = some u) (opening : openBlock? S u = some w) (inside : block? w = some block)
    (keys : block.map (·.1) = inner.map (·.1)) (safe : ∀ g ∈ inner, SafeKey g.1) :
    ∃ s', turn S key s = .ok s' ∧ Receives S key inner s' := by
  obtain ⟨next, updated, found'⟩ := Fields.exists_update (f := fun v => .ok (opened S v)) found rfl
  refine ⟨⟨next, .block key⟩, ?_, rfl, block, ?_, keys, fun offset s' => ?_⟩
  · rw [turn_eq, updated, landing, found, Option.bind_some, opening]
    rfl
  · rw [found', opened, opening]
    exact inside
  · rw [opened, opening, Option.getD_some] at found'
    rw [readLines_block (safe_assignments safe), update_updateBlock found' inside]
    simp only [Except.bind_eq_ok_iff]
    constructor
    · rintro ⟨fields', ⟨block', stored, updated⟩, rfl⟩
      exact ⟨rfl, block', stored, updated⟩
    · rintro ⟨target, block', stored, updated⟩
      exact ⟨s'.fields, ⟨block', stored, updated⟩, by rw [← target]⟩

/-- A header of a field that can be written as a section opens it, unless two optionals or more are around its record. -/
theorem exists_turn (declared : Declared S (.record name)) (starts : S.HasShape (.record name s.fields) (.record name))
    {type : FieldType} (htype : type ∈ S.fieldsOf name) {v : Value} (fits : S.HasShape v type.shape)
    (h : entry v = .ok (.block inner)) (safe : ∀ g ∈ inner, SafeKey g.1) :
    ∃ s', turn S type.key s = .ok s' ∧ (v.layers ≤ 1 → Receives S type.key inner s') ∧
      (1 < v.layers → s' = ⟨s.fields, .nowhere⟩) := by
  obtain ⟨u, found, starts⟩ := find?_of_hasShape declared starts htype
  -- the field may hold anything by now, but its shape is the one that was written
  have opens : (openBlock? S u).isSome = true ↔ v.layers ≤ 1 := by
    rw [isSome_openBlock? starts]
    exact isSome_record?_iff fits h
  cases opening : openBlock? S u with
  | some w =>
    have few : v.layers ≤ 1 := opens.1 (by rw [opening, Option.isSome_some])
    have fits' := hasShape_openBlock? (declared.sub (.field htype .self)) starts opening
    obtain ⟨block, inside⟩ := exists_block_of_openBlock? opening
    have keys := keys_eq_of_block? fits (block?_of_entry h few) fits' inside
    obtain ⟨s', turned, receives⟩ := receives_of_openBlock? found opening inside keys safe
    exact ⟨s', turned, fun _ => receives, fun many => absurd few (by omega)⟩
  | none =>
    have many : ¬ v.layers ≤ 1 := fun few => by
      have := opens.2 few
      rw [opening] at this
      cases this
    refine ⟨⟨s.fields, .nowhere⟩, ?_, fun few => absurd few many, fun _ => rfl⟩
    rw [turn, found, Option.bind_some, opening]

/-- **A header opens the field of a section exactly if there is no more than one optional around its record.**  The text
of a record has for each section its header and behind that its lines.  Whatever lines have been read before the header,
behind it these lines are assigned in the field; with two optionals or more around the record they are passed over. -/
theorem header_of_render (declared : Declared S (.record name))
    (fits : S.HasShape (.record name fields) (.record name)) (single : OneLine (.record name fields))
    (written : render (.record name fields) = .ok t) (hf : f ∈ fields) (h : entry f.2 = .ok (.block inner)) :
    (∃ before after, splitLines t.toList = before ++ (sectionLines (f.1, inner) ++ after)) ∧
      ∀ before s offset, readLines S 0 before ⟨startOf S name, .root⟩ = .ok s →
        ∃ s', readLine S offset (Text.trim (header f.1)) s = .ok s' ∧
          (f.2.layers ≤ 1 → Receives S f.1 inner s') ∧
          (1 < f.2.layers → s' = ⟨s.fields, .nowhere⟩ ∧
            ∀ offset, readLines S offset (linesOf (assignments inner)) s' = .ok s') := by
  have part : (f.1, inner) ∈ sections fields := mem_sections_iff.2 ⟨f, hf, h, rfl⟩
  obtain ⟨safe, safe'⟩ := safe_sections declared fits part
  constructor
  · obtain ⟨-, -, split⟩ := splitLines_of_render declared fits single written
    obtain ⟨before, after, found⟩ := exists_sectionLines part (linesOf (assignments fields)).isEmpty
    refine ⟨linesOf (assignments fields) ++ before, after ++ [[]], ?_⟩
    rw [split, found]
    simp only [List.append_assoc]
  · intro before s offset reached
    have starts := hasShape_readLines declared (hasShape_startOf declared) reached
    obtain ⟨type, htype, key, fits⟩ := fits.exists_field hf
    obtain ⟨s', turned, opens, passes⟩ := exists_turn declared starts htype fits h safe'
    rw [readLine_header safe, key]
    refine ⟨s', turned, opens, fun many => ?_⟩
    obtain rfl := passes many
    exact ⟨rfl, fun offset => readLines_nowhere (safe_assignments safe')⟩

/-!
A record with a record behind one optional and another one behind two.
-/

def profiles : Schema :=
  (Schema.declare {} "Video" [("width", .leaf (.number .uint32))]).declare "Profile"
    [("name", .leaf .text), ("once", .optional (.record "Video")), ("twice", .optional (.optional (.record "Video")))]

def video (width : BitVec 32) : Value := .record "Video" [("width", .leaf (.number ⟨.uint32, width⟩))]

def profile : Value := .record "Profile" [("name", .leaf (.text "p")), ("once", .present (.record "Video") (video 3)),
  ("twice", .present (.optional (.record "Video")) (.present (.record "Video") (video 4)))]

theorem declared_profiles : Declared profiles (.record "Profile") := by
  have fits : ∀ r ∈ profiles.records, ∀ f ∈ r.fields, profiles.HasShape f.initial f.shape :=
    List.forall_mem_cons.2 ⟨List.forall_mem_singleton.2 (.leaf (.number ⟨.uint32, 0⟩)),
      List.forall_mem_singleton.2 (List.forall_mem_cons.2 ⟨.leaf (.text ""),
        List.forall_mem_cons.2 ⟨.absent _, List.forall_mem_singleton.2 (.absent _)⟩⟩)⟩
  exact declared_of_records (by decide +kernel) fits _

theorem hasShape_profile : profiles.HasShape profile (.record "Profile") := by
  have video : ∀ width, profiles.HasShape (video width) (.record "Video") := fun width =>
    .record rfl (.cons (.leaf (.number ⟨.uint32, width⟩)) .nil)
  exact .record rfl (.cons (.leaf (.text "p")) (.cons (.present (video 3)) (.cons (.present (.present (video 4))) .nil)))

theorem header_of_render_profile : ∃ s,
    readLines profiles 0 (splitLines "name=p\n\n[once]\nwidth=3\n".toList) ⟨startOf profiles "Profile", .root⟩ = .ok s ∧
      readLine profiles 24 (Text.trim (header "twice")) s = .ok ⟨s.fields, .nowhere⟩ ∧
        readLines profiles 32 [assignment "width" ['4']] ⟨s.fields, .nowhere⟩ = .ok ⟨s.fields, .nowhere⟩ := by
  have read : ∃ s, (readLines profiles 0 (splitLines "name=p\n\n[once]\nwidth=3\n".toList)
      ⟨startOf profiles "Profile", .root⟩).toOption = some s := Option.isSome_iff_exists.1 (by decide +kernel)
  have written : ∃ t, (render profile).toOption = some t := Option.isSome_iff_exists.1 (by decide +kernel)
  obtain ⟨s, reached⟩ := read
  obtain ⟨t, written⟩ := written
  have reached := Except.toOption_eq_some_iff.1 reached
  obtain ⟨-, behind⟩ := header_of_render declared_profiles hasShape_profile (by decide)
    (Except.toOption_eq_some_iff.1 written) (.tail _ (.tail _ (.head _))) rfl
  obtain ⟨s', turned, -, dropped⟩ := behind _ s 24 reached
  obtain ⟨rfl, still⟩ := dropped (by decide)
  exact ⟨s, reached, turned, still 32⟩

/-- What is written behind two optionals is not read back. -/
theorem section_behind_two_optionals_lost :
    render profile = .ok "name=p\n\n[once]\nwidth=3\n\n[twice]\nwidth=4\n" ∧
      (read profiles (.record "Profile") "name=p\n\n[once]\nwidth=3\n\n[twice]\nwidth=4\n" >>= render) =
        .ok "name=p\n\n[once]\nwidth=3\n" :=
  ⟨Except.toOption_eq_some_iff.1 (by decide +kernel), Except.toOption_eq_some_iff.1 (by decide +kernel)⟩

end Headers

end Settings
end AssetRecords
