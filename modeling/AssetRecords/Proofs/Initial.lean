import AssetRecords.Proofs.Typing
/-!
# Initial — what a shape starts with

A value that a reader starts from has the shape it is read for, if that is so of what the record types say of their
fields (`Schema.Coherent`).  There is nothing in it that would show through what is read, nothing optional that is
present and no sequence with elements, if that is so of them as well (`Schema.Plain`).
-/
namespace AssetRecords

namespace Value

/-- The value is neither present content nor a sequence with elements. -/
def isFresh : Value → Bool
  | .present _ _ => false
  | .sequence _ vs => vs.isEmpty
  | _ => true

/-- Nothing optional is present in the value, and its sequences are empty. -/
def Fresh (v : Value) : Prop := ∀ w : Value, w.Occurs v → w.isFresh = true

instance (v : Value) : Decidable v.Fresh := decidable_of_iff (v.all isFresh) all_eq_true_iff

theorem Fresh.part {p v : Value} (h : v.Fresh) (hp : p ∈ v.parts) : p.Fresh := fun w occurs => h w (.part hp occurs)

theorem fresh_of_parts {v : Value} (h : v.isFresh = true) (parts : ∀ p ∈ v.parts, p.Fresh) : v.Fresh := by
  rintro w (_ | ⟨hp, occurs⟩)
  · exact h
  · exact parts _ hp w occurs

/-- A fresh value of an optional shape is absent. -/
theorem Fresh.eq_absent {S : Schema} {v : Value} {content : Shape} (h : v.Fresh)
    (fits : S.HasShape v (.optional content)) : v = .absent content := by
  cases fits with
  | absent => rfl
  | present => exact absurd (h _ .self) Bool.false_ne_true

end Value

namespace Schema

/-- A shape without buffers, in whose record types the keys differ and every field starts fresh. -/
structure Plain (S : Schema) (shape : Shape) : Prop where
  bufferless : ¬ S.Contains .buffer shape
  distinct : ∀ name, S.Contains (.record name) shape → ((S.fieldsOf name).map (·.key)).Nodup
  starts : ∀ name, S.Contains (.record name) shape → ∀ f ∈ S.fieldsOf name,
    S.HasShape f.initial f.shape ∧ f.initial.Fresh

/-- A shape in whose record types the keys differ and every field starts with a value of its own shape. -/
structure Coherent (S : Schema) (shape : Shape) : Prop where
  distinct : ∀ name, S.Contains (.record name) shape → ((S.fieldsOf name).map (·.key)).Nodup
  starts : ∀ name, S.Contains (.record name) shape → ∀ f ∈ S.fieldsOf name, S.HasShape f.initial f.shape

variable {S : Schema}

/-- A shape that is found in a coherent one is coherent. -/
theorem Coherent.sub {e shape : Shape} (h : S.Coherent shape) (contains : S.Contains e shape) : S.Coherent e where
  distinct name within := h.distinct name (within.trans contains)
  starts name within := h.starts name (within.trans contains)

theorem Plain.coherent {shape : Shape} (h : S.Plain shape) : S.Coherent shape where
  distinct := h.distinct
  starts name within f hf := (h.starts name within f hf).1

/-- A shape that is found in a plain one is plain. -/
theorem Plain.sub {e shape : Shape} (h : S.Plain shape) (contains : S.Contains e shape) : S.Plain e where
  bufferless within := h.bufferless (within.trans contains)
  distinct name within := h.distinct name (within.trans contains)
  starts name within := h.starts name (within.trans contains)

theorem Plain.field {name : String} (h : S.Plain (.record name)) {f : FieldType} (hf : f ∈ S.fieldsOf name) :
    S.Plain f.shape := h.sub (.field hf .self)

theorem Plain.element {e : Shape} {elements : List Shape} (h : S.Plain (.tuple elements)) (he : e ∈ elements) :
    S.Plain e := h.sub (.element he .self)

theorem Plain.sequence {e : Shape} (h : S.Plain (.sequence e)) : S.Plain e := h.sub (.sequence .self)

theorem Plain.optional {e : Shape} (h : S.Plain (.optional e)) : S.Plain e := h.sub (.optional .self)

theorem plain_leaf (t : LeafType) : S.Plain (.leaf t) where
  bufferless := nofun
  distinct := nofun
  starts := nofun

theorem type_initial (t : LeafType) : t.initial.type = t := by cases t <;> rfl

/-- Values that have each its shape, and keys in the same order. -/
theorem forall₂_fields {fields : List (String × Value)} {types : List FieldType}
    (keys : fields.map (·.1) = types.map (·.key))
    (shapes : List.Forall₂ S.HasShape (fields.map (·.2)) (types.map (·.shape))) :
    List.Forall₂ (fun f t => f.1 = t.key ∧ S.HasShape f.2 t.shape) fields types := by
  rw [List.forall₂_map_left_iff, List.forall₂_map_right_iff] at shapes
  have keys : List.Forall₂ (fun (f : String × Value) (t : FieldType) => f.1 = t.key) fields types := by
    rw [← List.forall₂_eq_eq_eq, List.forall₂_map_left_iff, List.forall₂_map_right_iff] at keys
    exact keys
  exact keys.mp (fun _ _ key shape => ⟨key, shape⟩) shapes

theorem HasShape.exists_leaf {v : Value} {t : LeafType} (fits : S.HasShape v (.leaf t)) :
    ∃ l : Leaf, v = .leaf l ∧ l.type = t := by
  generalize hs : Shape.leaf t = s at fits
  cases fits <;> cases hs
  exact ⟨_, rfl, rfl⟩

theorem HasShape.eq_record {v : Value} {name : String} (fits : S.HasShape v (.record name)) :
    ∃ fields, v = .record name fields := by
  cases fits
  exact ⟨_, rfl⟩

theorem HasShape.keys {name : String} {fields : List (String × Value)}
    (fits : S.HasShape (.record name fields) (.record name)) : fields.map (·.1) = (S.fieldsOf name).map (·.key) := by
  cases fits with
  | record keys => exact keys

theorem HasShape.fields {name : String} {fields : List (String × Value)}
    (fits : S.HasShape (.record name fields) (.record name)) :
    List.Forall₂ (fun f t => f.1 = t.key ∧ S.HasShape f.2 t.shape) fields (S.fieldsOf name) := by
  cases fits with
  | record keys shapes => exact forall₂_fields keys shapes

/-- A record has the fields that its type says, each of its shape. -/
theorem hasShape_of_fields {name : String} {fields : List (String × Value)}
    (fits : List.Forall₂ (fun f t => f.1 = t.key ∧ S.HasShape f.2 t.shape) fields (S.fieldsOf name)) :
    S.HasShape (.record name fields) (.record name) := by
  refine .record ?_ ?_
  · rw [← List.forall₂_eq_eq_eq, List.forall₂_map_left_iff, List.forall₂_map_right_iff]
    exact fits.imp fun _ _ field => field.1
  · rw [List.forall₂_map_left_iff, List.forall₂_map_right_iff]
    exact fits.imp fun _ _ field => field.2

theorem HasShape.exists_field {name : String} {fields : List (String × Value)}
    (fits : S.HasShape (.record name fields) (.record name)) {f : String × Value} (hf : f ∈ fields) :
    ∃ t ∈ S.fieldsOf name, f.1 = t.key ∧ S.HasShape f.2 t.shape := by
  have swapped : List.Forall₂ (fun t f => f.1 = t.key ∧ S.HasShape f.2 t.shape) (S.fieldsOf name) fields :=
    fits.fields.flip
  exact exists_of_mem_forall₂ swapped hf

mutual

/-- **A coherent shape starts with a value that has the shape.** -/
theorem hasShape_initial : ∀ shape : Shape, S.Coherent shape → S.HasShape (S.initial shape) shape
  | .leaf t, _ => by
    have fits := HasShape.leaf (S := S) t.initial
    rwa [type_initial] at fits
  | .enum table variant, _ => by
    rw [initial]
    exact .enum table variant variant
  | .record name, coherent => by
    rw [initial]
    refine .record ?_ ?_
    · rw [List.map_map]
      rfl
    · rw [List.map_map, List.forall₂_map_left_iff, List.forall₂_map_right_iff]
      exact List.forall₂_same.2 (coherent.starts name .self)
  | .tuple elements, coherent => by
    rw [initial]
    exact .tuple (hasShape_initials elements fun e he => coherent.sub (.element he .self))
  | .vector xs, _ => by
    rw [initial]
    refine .vector ?_
    rw [List.forall₂_map_left_iff, List.forall₂_map_right_iff]
    exact List.forall₂_same.2 fun x _ => .leaf (.number (.ofSingle x))
  | .numbers type, _ => by
    rw [initial]
    exact .numbers type []
  | .sequence element, _ => by
    rw [initial]
    exact .sequence nofun
  | .buffer, _ => by
    rw [initial]
    exact .buffer (Buffer.wellFormed_empty _)
  | .optional content, _ => by
    rw [initial]
    exact .absent content

theorem hasShape_initials : ∀ shapes : List Shape, (∀ s ∈ shapes, S.Coherent s) →
    List.Forall₂ S.HasShape (S.initials shapes) shapes
  | [], _ => by
    rw [initials]
    exact .nil
  | s :: rest, coherent => by
    obtain ⟨here, behind⟩ := List.forall_mem_cons.1 coherent
    rw [initials]
    exact .cons (hasShape_initial s here) (hasShape_initials rest behind)

end

mutual

/-- In a value that a plain shape starts with nothing is present or in a sequence. -/
theorem fresh_of_initial : ∀ shape : Shape, S.Plain shape → (S.initial shape).Fresh
  | .leaf t, _ | .enum table variant, _ | .numbers type, _ | .sequence element, _ | .optional content, _ => by
    rw [initial]
    exact Value.fresh_of_parts rfl nofun
  | .record name, plain => by
    rw [initial]
    refine Value.fresh_of_parts rfl ?_
    rintro p hp
    rw [Value.parts, List.map_map] at hp
    obtain ⟨f, hf, rfl⟩ := List.mem_map.1 hp
    exact (plain.starts name .self f hf).2
  | .tuple elements, plain => by
    rw [initial]
    exact Value.fresh_of_parts rfl (fresh_of_initials elements fun e he => plain.element he)
  | .vector xs, _ => by
    rw [initial]
    refine Value.fresh_of_parts rfl ?_
    rintro p hp
    obtain ⟨x, -, rfl⟩ := List.mem_map.1 hp
    exact Value.fresh_of_parts rfl nofun
  | .buffer, plain => absurd .self plain.bufferless

theorem fresh_of_initials : ∀ shapes : List Shape, (∀ s ∈ shapes, S.Plain s) → ∀ v ∈ S.initials shapes, v.Fresh
  | [], _ => by
    rw [initials]
    nofun
  | s :: rest, plain => by
    obtain ⟨here, behind⟩ := List.forall_mem_cons.1 plain
    rw [initials]
    exact List.forall_mem_cons.2 ⟨fresh_of_initial s here, fresh_of_initials rest behind⟩

end

/-- **A plain shape starts with a fresh value that has the shape.** -/
theorem fresh_initial (shape : Shape) (plain : S.Plain shape) :
    S.HasShape (S.initial shape) shape ∧ (S.initial shape).Fresh :=
  ⟨hasShape_initial shape plain.coherent, fresh_of_initial shape plain⟩

end Schema

mutual

/-- No buffer is found in the shape, record types apart. -/
def Shape.bufferless : Shape → Bool
  | .buffer => false
  | .tuple elements => allBufferless elements
  | .sequence s | .optional s => s.bufferless
  | _ => true

def Shape.allBufferless : List Shape → Bool
  | [] => true
  | s :: rest => s.bufferless && allBufferless rest

end

theorem Shape.bufferless_of_mem {e : Shape} : ∀ {elements : List Shape}, allBufferless elements = true → e ∈ elements →
    e.bufferless = true
  | s :: rest, h, he => by
    rw [allBufferless, Bool.and_eq_true] at h
    rcases List.mem_cons.1 he with rfl | he
    · exact h.1
    · exact bufferless_of_mem h.2 he

namespace Schema

variable {S : Schema}

theorem mem_records_of_mem_fieldsOf {name : String} {f : FieldType} (hf : f ∈ S.fieldsOf name) :
    ∃ r ∈ S.records, S.fieldsOf name = r.fields := by
  rw [fieldsOf, find?] at hf ⊢
  cases hr : S.records.find? (·.name == name) with
  | none =>
    rw [hr] at hf
    cases hf
  | some r => exact ⟨r, List.mem_of_find?_eq_some hr, rfl⟩

theorem nodup_of_records (h : ∀ r ∈ S.records, (r.fields.map (·.key)).Nodup) (name : String) :
    ((S.fieldsOf name).map (·.key)).Nodup := by
  cases hfields : S.fieldsOf name with
  | nil => exact .nil
  | cons f rest =>
    obtain ⟨r, hr, fields⟩ := mem_records_of_mem_fieldsOf (hfields ▸ List.mem_cons_self : f ∈ S.fieldsOf name)
    rw [← hfields, fields]
    exact h r hr

/-- Whether a shape is plain can be told from the record types one by one. -/
theorem plain_of_records (h : ∀ r ∈ S.records, (r.fields.map (·.key)).Nodup ∧ ∀ f ∈ r.fields,
    f.shape.bufferless = true ∧ S.HasShape f.initial f.shape ∧ f.initial.Fresh) {shape : Shape}
    (bufferless : shape.bufferless = true) : S.Plain shape where
  bufferless contains := by
    induction contains with
    | self => cases bufferless
    | @field name f hf _ ih =>
      obtain ⟨r, hr, fields⟩ := mem_records_of_mem_fieldsOf hf
      exact ih ((h r hr).2 f (fields ▸ hf)).1
    | element he _ ih =>
      rw [Shape.bufferless] at bufferless
      exact ih (Shape.bufferless_of_mem bufferless he)
    | sequence _ ih =>
      rw [Shape.bufferless] at bufferless
      exact ih bufferless
    | optional _ ih =>
      rw [Shape.bufferless] at bufferless
      exact ih bufferless
  distinct name _ := nodup_of_records (fun r hr => (h r hr).1) name
  starts name _ f hf := by
    obtain ⟨r, hr, fields⟩ := mem_records_of_mem_fieldsOf hf
    exact ((h r hr).2 f (fields ▸ hf)).2

end Schema
end AssetRecords
