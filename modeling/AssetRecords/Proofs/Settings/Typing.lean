import AssetRecords.Proofs.Settings.Texts
/-!
# Typing — what is read keeps its shape

A line changes the value that it is read into, but no line changes what shape that has: a text, whether it fits or not,
leaves every field a value of its own shape (`hasShape_readLine`, `hasShape_read`).
-/
namespace AssetRecords
namespace Settings

variable {S : Schema}

/-!
## Values
-/

theorem type_of_parse {type : LeafType} {text : List Char} {l : Leaf} (h : type.parse text = .ok l) : l.type = type := by
  cases type with
  | bool =>
    rw [LeafType.parse] at h
    split at h
    · cases h
      rfl
    · split at h
      · cases h
        rfl
      · cases h
  | number type =>
    obtain ⟨bits, -, rfl⟩ := Except.map_eq_ok_iff.1 h
    rfl
  | text =>
    cases h
    rfl

/-- **What is read for a shape has the shape.** -/
theorem hasShape_parse {text : List Char} : ∀ {shape : Shape} {v : Value}, parse shape text = .ok v → S.HasShape v shape
  | .leaf type, v, h => by
    obtain ⟨l, hl, rfl⟩ := Except.map_eq_ok_iff.1 h
    exact type_of_parse hl ▸ .leaf l
  | .enum table initial, v, h => by
    obtain ⟨variant, -, rfl⟩ := Except.map_eq_ok_iff.1 h
    exact .enum table variant initial
  | .optional content, v, h => by
    obtain ⟨w, hw, rfl⟩ := Except.map_eq_ok_iff.1 h
    exact .present (hasShape_parse hw)
  | .record _, _, h | .tuple _, _, h | .vector _, _, h | .numbers _, _, h | .sequence _, _, h | .buffer, _, h => by
    cases h

variable {v v' : Value} {shape : Shape}

theorem hasShape_store {text : List Char} (fits : S.HasShape v shape) (h : store v text = .ok v') :
    S.HasShape v' shape := by
  rw [store, parse_shape fits] at h
  exact hasShape_parse h

/-- A change to the record that a value is or holds keeps the shape of the value if it keeps the type of the record. -/
theorem hasShape_updateBlock {change : List (String × Value) → Except Error (List (String × Value))}
    (keeps : ∀ name fields fields', S.Contains (.record name) shape → S.HasShape (.record name fields) (.record name) →
      change fields = .ok fields' → S.HasShape (.record name fields') (.record name))
    (fits : S.HasShape v shape) (h : updateBlock change v = .ok v') : S.HasShape v' shape := by
  cases v with
  | record name fields =>
    obtain ⟨fields', changed, rfl⟩ := Except.map_eq_ok_iff.1 h
    cases fits with
    | record keys shapes => exact keeps _ _ _ .self (.record keys shapes) changed
  | present content w =>
    cases w with
    | record name fields =>
      obtain ⟨fields', changed, rfl⟩ := Except.map_eq_ok_iff.1 h
      cases fits with
      | present fits =>
        cases fits with
        | record keys shapes => exact .present (keeps _ _ _ (.optional .self) (.record keys shapes) changed)
    | _ =>
      cases h
      exact fits
  | _ =>
    cases h
    exact fits

/-- Only a record type starts with a record. -/
theorem eq_record_of_initial {name : String} {fields : List (String × Value)}
    (h : S.initial shape = .record name fields) : shape = .record name := by
  cases shape with
  | record name' =>
    rw [initial_record] at h
    cases h
    rfl
  | _ =>
    rw [Schema.initial] at h
    cases h

/-- A header keeps the shape of the field that it opens. -/
theorem hasShape_openBlock? (declared : Declared S shape) (fits : S.HasShape v shape) (h : openBlock? S v = some v') :
    S.HasShape v' shape := by
  cases v with
  | record name fields =>
    cases h
    exact fits
  | absent content =>
    cases fits with
    | absent =>
      rw [openBlock?] at h
      split at h
      · rename_i name fields initial
        cases h
        obtain rfl := eq_record_of_initial initial
        rw [initial_record] at initial
        cases initial
        exact .present (hasShape_startOf (declared.sub (.optional .self)))
      · cases h
  | present content w =>
    cases w with
    | record name fields =>
      cases h
      exact fits
    | _ => cases h
  | _ => cases h

/-!
## Records
-/

variable {name : String} {fields fields' : List (String × Value)}

/-- A change to a field keeps the type of the record if it keeps the shape of the field. -/
theorem hasShape_update {key : String} {change : Value → Except Error Value}
    (keeps : ∀ type ∈ S.fieldsOf name, ∀ v v', S.HasShape v type.shape → change v = .ok v' → S.HasShape v' type.shape)
    (fits : S.HasShape (.record name fields) (.record name)) (h : Fields.update key change fields = .ok fields') :
    S.HasShape (.record name fields') (.record name) := by
  refine Schema.hasShape_of_fields ?_
  have each := fits.fields
  clear fits
  generalize S.fieldsOf name = types at keeps each
  induction each generalizing fields' with
  | nil =>
    cases h
    exact .nil
  | @cons f type rest types first others ih =>
    obtain ⟨keeps, keeps'⟩ := List.forall_mem_cons.1 keeps
    rw [Fields.update] at h
    by_cases here : f.1 = key
    · rw [if_pos here] at h
      obtain ⟨v', changed, rfl⟩ := Except.map_eq_ok_iff.1 h
      exact .cons ⟨first.1, keeps _ _ first.2 changed⟩ others
    · rw [if_neg here] at h
      obtain ⟨rest', updated, rfl⟩ := Except.map_eq_ok_iff.1 h
      exact .cons first (ih updated keeps')

theorem hasShape_assign {offset : Nat} {key : String} {text : List Char}
    (fits : S.HasShape (.record name fields) (.record name))
    (h : assign offset key (Text.trim text) fields = .ok fields') : S.HasShape (.record name fields') (.record name) :=
  hasShape_update (fun _ _ _ _ fits stored => hasShape_store fits stored) fits (assign_eq_ok_iff.1 h)

/-!
## Lines
-/

theorem hasShape_turn (declared : Declared S (.record name)) {key : String} {s s' : State}
    (fits : S.HasShape (.record name s.fields) (.record name)) (h : turn S key s = .ok s') :
    S.HasShape (.record name s'.fields) (.record name) := by
  rw [turn_eq] at h
  obtain ⟨next, updated, rfl⟩ := Except.map_eq_ok_iff.1 h
  refine hasShape_update (fun type htype v v' fits opening => ?_) fits updated
  cases opening
  rw [opened]
  cases ready : openBlock? S v with
  | none => exact fits
  | some w => exact hasShape_openBlock? (declared.sub (.field htype .self)) fits ready

/-- **A line keeps the type of the root**, whatever it holds. -/
theorem hasShape_readLine (declared : Declared S (.record name)) {offset : Nat} {line : List Char} {s s' : State}
    (fits : S.HasShape (.record name s.fields) (.record name)) (h : readLine S offset line s = .ok s') :
    S.HasShape (.record name s'.fields) (.record name) := by
  unfold readLine at h
  split at h
  · cases h
    exact fits
  · cases h
    exact fits
  · cases h
    exact fits
  · split at h
    · exact hasShape_turn declared fits h
    · cases h
  · split at h
    · dsimp only at h
      split at h
      · cases h
        exact fits
      · obtain ⟨next, assigned, rfl⟩ := Except.map_eq_ok_iff.1 h
        exact hasShape_assign fits assigned
      · obtain ⟨next, updated, rfl⟩ := Except.map_eq_ok_iff.1 h
        refine hasShape_update (fun type _ v v' fits changed => ?_) fits updated
        exact hasShape_updateBlock (fun _ _ _ _ fits assigned => hasShape_assign fits assigned) fits changed
    · cases h

/-- **So do lines.** -/
theorem hasShape_readLines (declared : Declared S (.record name)) :
    ∀ {offset : Nat} {ls : List (List Char)} {s s' : State}, S.HasShape (.record name s.fields) (.record name) →
      readLines S offset ls s = .ok s' → S.HasShape (.record name s'.fields) (.record name)
  | _, [], _, _, fits, h => by
    cases h
    exact fits
  | _, _ :: _, _, _, fits, h => by
    obtain ⟨s, here, rest⟩ := Except.bind_eq_ok_iff.1 h
    exact hasShape_readLines declared (hasShape_readLine declared fits here) rest

/-- **What is read from a text is a record of the type that it is read for.** -/
theorem hasShape_read (declared : Declared S (.record name)) {t : String} (h : read S (.record name) t = .ok v) :
    S.HasShape v (.record name) := by
  rw [read_eq] at h
  obtain ⟨s, lines, rfl⟩ := Except.map_eq_ok_iff.1 h
  exact hasShape_readLines declared (hasShape_startOf declared) lines

end Settings
end AssetRecords
