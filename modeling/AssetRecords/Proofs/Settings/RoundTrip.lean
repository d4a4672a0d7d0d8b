import AssetRecords.Proofs.Settings.Texts
/-!
# RoundTrip — settings are read back up to blanks

The writer puts the leaves of the root in front of its records, and the reader follows the lines with a target that moves
from header to header.  Each line comes back to the field that it came from, so a value is read back as it was, but for
the blanks at the ends of its texts (`read_render_trimmed`).
-/
namespace AssetRecords

namespace Value

/-- The value is no present content. -/
def isUnset : Value → Bool
  | .present _ _ => false
  | _ => true

/-- Nothing optional is present in the value. -/
def Unset (v : Value) : Prop := ∀ w : Value, w.Occurs v → w.isUnset = true

instance (v : Value) : Decidable v.Unset := decidable_of_iff (v.all isUnset) all_eq_true_iff

theorem Unset.part {p v : Value} (h : v.Unset) (hp : p ∈ v.parts) : p.Unset := fun w occurs => h w (.part hp occurs)

theorem Unset.eq_absent {S : Schema} {v : Value} {content : Shape} (h : v.Unset)
    (fits : S.HasShape v (.optional content)) : v = .absent content := by
  cases fits with
  | absent => rfl
  | present => exact absurd (h _ .self) Bool.false_ne_true

mutual

/-- The value with each of its texts trimmed. -/
def trimmed : Value → Value
  | .leaf (.text s) => .leaf (.text (String.ofList (Text.trim s.toList)))
  | .record name fields => .record name (trimmedFields fields)
  | .tuple vs => .tuple (trimmedAll vs)
  | .sequence element vs => .sequence element (trimmedAll vs)
  | .present content v => .present content v.trimmed
  | v => v

def trimmedFields : List (String × Value) → List (String × Value)
  | [] => []
  | (key, v) :: rest => (key, v.trimmed) :: trimmedFields rest

def trimmedAll : List Value → List Value
  | [] => []
  | v :: rest => v.trimmed :: trimmedAll rest

end

theorem trimmedFields_eq (fields : List (String × Value)) :
    trimmedFields fields = fields.map fun f => (f.1, f.2.trimmed) := by
  induction fields with
  | nil => rw [trimmedFields, List.map_nil]
  | cons f rest ih => rw [trimmedFields, List.map_cons, ih]

end Value

mutual

/-- Nothing optional in the shape is optional once more, record types apart. -/
def Shape.single : Shape → Bool
  | .optional (.optional _) => false
  | .tuple elements => allSingle elements
  | .sequence s | .optional s => s.single
  | _ => true

def Shape.allSingle : List Shape → Bool
  | [] => true
  | s :: rest => s.single && allSingle rest

end

theorem Shape.single_of_mem {e : Shape} : ∀ {elements : List Shape}, allSingle elements = true → e ∈ elements →
    e.single = true
  | s :: rest, h, he => by
    rw [allSingle, Bool.and_eq_true] at h
    rcases List.mem_cons.1 he with rfl | he
    · exact h.1
    · exact single_of_mem h.2 he

theorem Shape.single_of_optional {e : Shape} (h : (Shape.optional e).single = true) : e.single = true := by
  cases e with
  | optional => cases h
  | _ => exact h

namespace Settings

/-- A shape whose values settings can tell: every field starts with nothing present, and nothing optional is optional
once more. -/
structure Suited (S : Schema) (shape : Shape) : Prop extends Declared S shape where
  unset : ∀ name, S.Contains (.record name) shape → ∀ f ∈ S.fieldsOf name, f.initial.Unset
  single : ∀ content, ¬ S.Contains (.optional (.optional content)) shape

/-- What settings cannot tell of values in general: a key is to be found again and to fill its line without blanks at its
ends, and a floating-point number is to be found again from its own text. -/
structure Clear (v : Value) : Prop where
  keys : ∀ table variant key, (Value.enum table variant).Occurs v → table.keyOf? variant = some key →
    Text.trim key.toList = key.toList ∧ '\n' ∉ key.toList ∧ table.valueOf? key = some variant
  floats : ∀ (w : Value) (s : Scalar), w.Occurs v → s ∈ w.scalars → s.type.isFloating = true →
    s.type.parse s.chars = .ok s.bits

theorem Clear.oneLine {v : Value} (h : Clear v) : OneLine v := fun table variant key occurs listed =>
  (h.keys table variant key occurs listed).2.1

theorem Clear.part {p v : Value} (h : Clear v) (hp : p ∈ v.parts) : Clear p where
  keys table variant key occurs := h.keys table variant key (.part hp occurs)
  floats w s occurs := h.floats w s (.part hp occurs)

/-- What `Clear` asks of a value apart from its parts. -/
def clear : Value → Bool
  | .enum table variant =>
    (table.keyOf? variant).all fun key =>
      decide (Text.trim key.toList = key.toList ∧ '\n' ∉ key.toList ∧ table.valueOf? key = some variant)
  | w => w.scalars.all fun s => !s.type.isFloating || decide ((s.type.parse s.chars).toOption = some s.bits)

theorem clear_of_all {v : Value} (h : v.all clear = true) : Clear v := by
  rw [Value.all_eq_true_iff] at h
  refine ⟨fun table variant key occurs listed => ?_, fun w s occurs hs floating => ?_⟩
  · have this := h _ occurs
    rw [clear, listed] at this
    exact of_decide_eq_true this
  · have this := h w occurs
    cases w with
    | enum table variant => cases hs
    | _ =>
      have each := List.all_eq_true.1 this s hs
      rw [floating, Bool.not_true, Bool.false_or] at each
      exact Except.toOption_eq_some_iff.1 (of_decide_eq_true each)

section Suited

variable {S : Schema}

theorem Suited.sub {e shape : Shape} (h : Suited S shape) (contains : S.Contains e shape) : Suited S e where
  toDeclared := h.toDeclared.sub contains
  unset name within := h.unset name (within.trans contains)
  single content within := h.single content (within.trans contains)

theorem Suited.field {name : String} (h : Suited S (.record name)) {f : FieldType} (hf : f ∈ S.fieldsOf name) :
    Suited S f.shape := h.sub (.field hf .self)

theorem Suited.optional {e : Shape} (h : Suited S (.optional e)) : Suited S e := h.sub (.optional .self)

/-- Whether settings can tell a shape can be told from the record types one by one. -/
theorem suited_of_records {shape : Shape} (declared : Declared S shape)
    (plain : ∀ r ∈ S.records, ∀ f ∈ r.fields, f.shape.single = true ∧ f.initial.Unset) (single : shape.single = true) :
    Suited S shape where
  toDeclared := declared
  unset name _ f hf := by
    obtain ⟨r, hr, fields⟩ := Schema.mem_records_of_mem_fieldsOf hf
    exact (plain r hr f (fields ▸ hf)).2
  single content contains := by
    induction contains with
    | self => cases single
    | field hf _ ih =>
      obtain ⟨r, hr, fields⟩ := Schema.mem_records_of_mem_fieldsOf hf
      exact ih (declared.sub (.field hf .self)) (plain r hr _ (fields ▸ hf)).1
    | element he _ ih =>
      rw [Shape.single] at single
      exact ih (declared.sub (.element he .self)) (Shape.single_of_mem single he)
    | sequence _ ih =>
      rw [Shape.single] at single
      exact ih (declared.sub (.sequence .self)) single
    | optional _ ih => exact ih (declared.sub (.optional .self)) (Shape.single_of_optional single)

end Suited

/-!
## Lines
-/

section Leaves

variable {S : Schema} {v : Value} {shape : Shape}

theorem parse_leaf {l : Leaf} (clear : Clear (.leaf l)) :
    parse (.leaf l.type) (Text.trim l.chars) = .ok (Value.leaf l).trimmed := by
  cases l with
  | bool b => cases b <;> rfl
  | number s =>
    have back : s.type.parse s.chars = .ok s.bits := by
      cases floating : s.type.isFloating with
      | true => exact clear.floats _ s .self (List.mem_singleton_self s) floating
      | false => exact Scalar.parse_chars floating
    have whole : Text.trim (Leaf.number s).chars = s.chars := Text.trim_chars s
    rw [whole, parse, Leaf.type, LeafType.parse, back]
    rfl
  | text s => rfl

/-- **A line is read as the value that it was written for**, but for the blanks at its ends. -/
theorem parse_entry (fits : S.HasShape v shape) {text : List Char} (h : entry v = .ok (.line text)) (clear : Clear v) :
    parse shape (Text.trim text) = .ok v.trimmed := by
  induction v using Value.parts_induction generalizing shape with
  | step v ih =>
    cases fits with
    | leaf l =>
      cases (entry_leaf h).1
      exact parse_leaf clear
    | enum table variant initial =>
      obtain ⟨key, hkey, rfl⟩ := exists_key_of_entry h
      obtain ⟨whole, -, back⟩ := clear.keys table variant key .self hkey
      rw [parse, whole, String.ofList_toList, EnumTable.ofKey, back]
      rfl
    | absent content => cases h
    | @present content w fits =>
      rw [parse, ih w List.mem_cons_self fits h (clear.part List.mem_cons_self), Value.trimmed]
      rfl
    | record => cases h
    | _ => cases h

end Leaves

/-!
## Fields
-/

section Fields

variable {S : Schema} {v : Value} {shape : Shape}

/-- Only what is absent is not written. -/
theorem eq_absent_of_entry (suited : Suited S shape) (fits : S.HasShape v shape) (h : entry v = .ok .nothing) :
    ∃ content, v = .absent content := by
  obtain absent | ⟨content, w, rfl, within⟩ := nothing_cases h
  · exact absent
  · cases fits with
    | present fits =>
      obtain ⟨content, rfl⟩ | ⟨content, w, rfl, -⟩ := nothing_cases within
      all_goals
        cases fits
        exact absurd .self (suited.single _)

/-- Only records are written as sections, and optional ones that are present. -/
theorem section_of_entry (suited : Suited S shape) (fits : S.HasShape v shape) {inner : List (String × Value)}
    (h : entry v = .ok (.block inner)) :
    ∃ name, (shape = .record name ∧ v = .record name inner) ∨
      (shape = .optional (.record name) ∧ v = .present (.record name) (.record name inner)) := by
  obtain ⟨name, rfl⟩ | ⟨content, w, rfl, within⟩ := block_cases h
  · cases fits
    exact ⟨name, .inl ⟨rfl, rfl⟩⟩
  · cases fits with
    | present fits =>
      obtain ⟨name, rfl⟩ | ⟨content, w, rfl, -⟩ := block_cases within
      · cases fits
        exact ⟨name, .inr ⟨rfl, rfl⟩⟩
      · cases fits
        exact absurd .self (suited.single _)

/-- A field to start from and the field that is to be read into it. -/
structure Begins (S : Schema) (start field : String × Value) : Prop where
  key : start.1 = field.1
  unset : start.2.Unset
  shapes : ∃ shape, Suited S shape ∧ S.HasShape start.2 shape ∧ S.HasShape field.2 shape

theorem begins_of_hasShape {name : String} {start fields : List (String × Value)} (suited : Suited S (.record name))
    (starts : S.HasShape (.record name start) (.record name)) (unset : (Value.record name start).Unset)
    (fits : S.HasShape (.record name fields) (.record name)) : List.Forall₂ (Begins S) start fields := by
  refine forall₂_imp_of_mem (forall₂_of_common starts.fields fits.fields) fun w hw f _ => ?_
  rintro ⟨type, htype, ⟨key, starts⟩, key', fits⟩
  exact ⟨key.trans key'.symm, unset.part (List.mem_map_of_mem hw), type.shape, suited.field htype, starts, fits⟩

theorem keys_of_begins {start fields : List (String × Value)} (h : List.Forall₂ (Begins S) start fields) :
    start.map (·.1) = fields.map (·.1) :=
  (Fields.keys_of_forall₂ (fun _ _ begins => begins.key.symm) h).symm

theorem unset_startOf {name : String} (suited : Suited S (.record name)) :
    (Value.record name (startOf S name)).Unset := by
  rintro w (_ | ⟨hp, occurs⟩)
  · rfl
  · rw [Value.parts, startOf, List.map_map] at hp
    obtain ⟨f, hf, rfl⟩ := List.mem_map.1 hp
    exact suited.unset name .self f hf w occurs

theorem lookup_assignments {fields : List (String × Value)} (distinct : (fields.map (·.1)).Nodup)
    {f : String × Value} (hf : f ∈ fields) : (assignments fields).lookup f.1 = lineOf? f.2 :=
  lookup_filterMap distinct hf

theorem lookup_sections {fields : List (String × Value)} (distinct : (fields.map (·.1)).Nodup)
    {f : String × Value} (hf : f ∈ fields) : (sections fields).lookup f.1 = blockOf? f.2 :=
  lookup_filterMap distinct hf

/-- A field that is written as a line is read from it. -/
theorem store_of_begins {w f : String × Value} (begins : Begins S w f) {text : List Char}
    (h : entry f.2 = .ok (.line text)) (clear : Clear f.2) : store w.2 text = .ok f.2.trimmed := by
  obtain ⟨shape, -, starts, fits⟩ := begins.shapes
  rw [store, parse_shape starts]
  exact parse_entry fits h clear

/-- A field that is not written stays as it starts. -/
theorem eq_of_begins {w f : String × Value} (begins : Begins S w f) (h : entry f.2 = .ok .nothing) :
    w.2 = f.2.trimmed := by
  obtain ⟨shape, suited, starts, fits⟩ := begins.shapes
  obtain ⟨content, absent⟩ := eq_absent_of_entry suited fits h
  rw [absent] at fits ⊢
  cases fits
  rw [Value.trimmed]
  · exact begins.unset.eq_absent starts
  all_goals nofun

/-- What the lines of a record make of a field that is written as one. -/
theorem settles_of_line {fields : List (String × Value)} {w f : String × Value} (begins : Begins S w f)
    (distinct : (fields.map (·.1)).Nodup) (hf : f ∈ fields) {text : List Char} (h : entry f.2 = .ok (.line text))
    (clear : Clear f.2) : Fields.Settles store (assignments fields) w (f.1, f.2.trimmed) := by
  refine ⟨begins.key.symm, ?_⟩
  rw [begins.key, lookup_assignments distinct hf, lineOf?_eq_some_iff.2 h]
  exact store_of_begins begins h clear

/-- The lines of a record leave a field alone that is not written as one. -/
theorem settles_of_no_line {fields : List (String × Value)} {w f : String × Value} (begins : Begins S w f)
    (distinct : (fields.map (·.1)).Nodup) (hf : f ∈ fields) (h : lineOf? f.2 = none) :
    Fields.Settles store (assignments fields) w w := by
  refine Fields.settles_self ?_
  rw [begins.key, lookup_assignments distinct hf, h]

/-- **The lines of a record without records of its own are read as that record.** -/
theorem storeAll_assignments {start fields : List (String × Value)} (begins : List.Forall₂ (Begins S) start fields)
    (distinct : (fields.map (·.1)).Nodup) (flat : Flat fields) (clear : ∀ f ∈ fields, Clear f.2) :
    storeAll (assignments fields) start = .ok (Value.trimmedFields fields) := by
  have once := distinct.sublist (sublist_keys_filterMap lineOf? fields)
  refine (Fields.foldlM_update_eq_ok_iff once (keys_of_begins begins ▸ distinct)).2 ?_
  rw [Value.trimmedFields_eq, List.forall₂_map_right_iff]
  refine forall₂_imp_of_mem begins fun w _ f hf begins => ?_
  obtain ⟨e, he, leaf⟩ := flat f hf
  cases e with
  | line text => exact settles_of_line begins distinct hf he (clear f hf)
  | block inner => exact absurd rfl (leaf inner)
  | nothing =>
    have same : w = (f.1, f.2.trimmed) := Prod.ext begins.key (eq_of_begins begins he)
    exact same ▸ settles_of_no_line begins distinct hf (by rw [lineOf?, he])

/-- **A section is read as the record that it was written for**, from whatever its field starts with. -/
theorem readSection_of_begins {w f : String × Value} (begins : Begins S w f) {inner : List (String × Value)}
    (h : entry f.2 = .ok (.block inner)) (flat : Flat inner) (clear : Clear f.2) :
    readSection S w.2 inner = .ok f.2.trimmed := by
  obtain ⟨shape, suited, starts, fits⟩ := begins.shapes
  obtain ⟨name, ⟨rfl, record⟩ | ⟨rfl, record⟩⟩ := section_of_entry suited fits h
  · rw [record] at fits clear ⊢
    have unset := begins.unset
    generalize w.2 = old at starts unset
    cases starts with
    | @record _ start keys shapes =>
      have stored := storeAll_assignments (begins_of_hasShape suited (.record keys shapes) unset fits)
        (nodup_keys suited.toDeclared fits) flat fun f hf => clear.part (List.mem_map_of_mem hf)
      rw [readSection, openBlock?]
      show Value.record name <$> storeAll (assignments inner) start = _
      rw [stored, Value.trimmed]
      rfl
  · rw [record] at fits clear ⊢
    have starts' := hasShape_startOf suited.optional.toDeclared
    have unset := unset_startOf suited.optional
    cases fits with
    | present fits =>
      have stored := storeAll_assignments (begins_of_hasShape suited.optional starts' unset fits)
        (nodup_keys suited.optional.toDeclared fits) flat fun f hf =>
          (clear.part List.mem_cons_self).part (List.mem_map_of_mem hf)
      rw [begins.unset.eq_absent starts, readSection, openBlock?, initial_record]
      show (Value.present (.record name) <| .record name ·) <$> storeAll (assignments inner) (startOf S name) = _
      rw [stored, Value.trimmed, Value.trimmed]
      rfl

/-- **The lines of the root and then its sections are read as the root.** -/
theorem sections_of_begins {start fields : List (String × Value)} (begins : List.Forall₂ (Begins S) start fields)
    (distinct : (fields.map (·.1)).Nodup) (writable : Writable fields) (flat : ∀ s ∈ sections fields, Flat s.2)
    (clear : ∀ f ∈ fields, Clear f.2) :
    ∃ leaves, storeAll (assignments fields) start = .ok leaves ∧
      (sections fields).foldlM (fun fields s => Fields.update s.1 (fun v => readSection S v s.2) fields) leaves =
        .ok (Value.trimmedFields fields) := by
  have distinct' := keys_of_begins begins ▸ distinct
  have between : ∃ leaves, List.Forall₂ (Fields.Settles store (assignments fields)) start leaves ∧
      List.Forall₂ (Fields.Settles (readSection S) (sections fields)) leaves (Value.trimmedFields fields) := by
    refine exists_between ?_
    rw [Value.trimmedFields_eq, List.forall₂_map_right_iff]
    refine forall₂_imp_of_mem begins fun w _ f hf begins => ?_
    have whole := lookup_sections distinct hf
    obtain ⟨e, he⟩ := writable f hf
    rw [blockOf?, he] at whole
    -- a field is settled by its line or by its section, and is what it starts with if it has neither
    cases e with
    | line text =>
      exact ⟨(f.1, f.2.trimmed), settles_of_line begins distinct hf he (clear f hf), Fields.settles_self whole⟩
    | block inner =>
      refine ⟨w, settles_of_no_line begins distinct hf (by rw [lineOf?, he]), begins.key.symm, ?_⟩
      rw [begins.key, whole]
      exact readSection_of_begins begins he (flat (f.1, inner) (mem_sections_iff.2 ⟨f, hf, he, rfl⟩)) (clear f hf)
    | nothing =>
      have same : w = (f.1, f.2.trimmed) := Prod.ext begins.key (eq_of_begins begins he)
      refine ⟨w, settles_of_no_line begins distinct hf (by rw [lineOf?, he]), ?_⟩
      rw [← same]
      exact Fields.settles_self (by rw [begins.key, whole])
  obtain ⟨leaves, first, rest⟩ := between
  have once := distinct.sublist (sublist_keys_filterMap lineOf? fields)
  have once' := distinct.sublist (sublist_keys_filterMap blockOf? fields)
  exact ⟨leaves, (Fields.foldlM_update_eq_ok_iff once distinct').2 first,
    (Fields.foldlM_update_eq_ok_iff once' (Fields.keys_of_settles first ▸ distinct')).2 rest⟩

end Fields

/-!
## Whole texts
-/

/-- **What settings are written for is read back, but for the blanks at the ends of texts.**  The value is of a record
type that settings can tell, and its enums and floating-point numbers are found again from their own texts. -/
theorem read_render_trimmed {S : Schema} {name : String} {v : Value} {t : String} (suited : Suited S (.record name))
    (fits : S.HasShape v (.record name)) (clear : Clear v) (written : render v = .ok t) :
    read S (.record name) t = .ok v.trimmed := by
  obtain ⟨fields, rfl⟩ := fits.eq_record
  obtain ⟨writable, flat, split⟩ := splitLines_of_render suited.toDeclared fits clear.oneLine written
  have own : ∀ f ∈ fields, Clear f.2 := fun f hf => clear.part (List.mem_map_of_mem hf)
  have safe := safe_assignments (safe_keys suited.toDeclared fits)
  have heads : ∀ p ∈ sections fields, SafeKey p.1 := fun p hp => (safe_sections suited.toDeclared fits hp).1
  have inside : ∀ p ∈ sections fields, ∀ m ∈ assignments p.2, SafeKey m.1 := fun p hp =>
    safe_assignments (safe_sections suited.toDeclared fits hp).2
  have begins := begins_of_hasShape suited (hasShape_startOf suited.toDeclared) (unset_startOf suited) fits
  obtain ⟨leaves, stored, settled⟩ := sections_of_begins begins (nodup_keys suited.toDeclared fits) writable flat own
  have root : readLines S 0 (linesOf (assignments fields)) ⟨startOf S name, .root⟩ = .ok ⟨leaves, .root⟩ :=
    (readLines_root safe).2 ⟨leaves, stored, rfl⟩
  obtain ⟨target, behind⟩ := readLines_layOut heads inside (s := ⟨leaves, .root⟩) settled
  have whole : readLines S 0 (splitLines t.toList) ⟨startOf S name, .root⟩ =
      .ok ⟨Value.trimmedFields fields, target⟩ := by
    rw [split, readLines_append, root]
    show readLines S _ _ ⟨leaves, .root⟩ = _
    rw [readLines_append, behind]
    rfl
  rw [read_eq, whole, Value.trimmed]
  rfl

/-!
A record type with records in sections of their own, one of them without fields, and a value of it.
-/

def stations : Schema :=
  (((Schema.declare {} "Dial" [("width", .leaf (.number .uint32)), ("label", .leaf .text)]).declare "Notes" []).declare
    "Station" [("motto", .leaf .text), ("kind", .enum .kinds 0), ("dial", .record "Dial"),
      ("spare", .optional (.record "Dial")), ("gain", .leaf (.number .float32)), ("notes", .optional (.record "Notes")),
      ("reserve", .optional (.record "Dial")), ("level", .optional (.leaf (.number .int8)))])

def dial (width : BitVec 32) (label : String) : Value :=
  .record "Dial" [("width", .leaf (.number ⟨.uint32, width⟩)), ("label", .leaf (.text label))]

def station (motto label : String) : Value := .record "Station" [
  ("motto", .leaf (.text motto)), ("kind", .enum .kinds 1), ("dial", dial 7 label),
  ("spare", .present (.record "Dial") (dial 9 "")), ("gain", .leaf (.number ⟨.float32, 0x3fc00000#32⟩)),
  ("notes", .present (.record "Notes") (.record "Notes" [])), ("reserve", .absent (.record "Dial")),
  ("level", .present (.leaf (.number .int8)) (.leaf (.number ⟨.int8, -7#8⟩)))]

def stationText : String := "motto= = [a];\nkind=moving\ngain=1.5\nlevel=-7\n" ++
  "\n[dial]\nwidth=7\nlabel=# b\t\n\n[spare]\nwidth=9\nlabel=\n\n[notes]\n"

theorem hasShape_dial (width : BitVec 32) (label : String) : stations.HasShape (dial width label) (.record "Dial") :=
  .record rfl (.cons (.leaf (.number ⟨.uint32, width⟩)) (.cons (.leaf (.text label)) .nil))

theorem suited_stations : Suited stations (.record "Station") := by
  have fits : ∀ r ∈ stations.records, ∀ f ∈ r.fields, stations.HasShape f.initial f.shape :=
    List.forall_mem_cons.2 ⟨List.forall_mem_cons.2 ⟨.leaf (.number ⟨.uint32, 0⟩),
      List.forall_mem_singleton.2 (.leaf (.text ""))⟩, List.forall_mem_cons.2 ⟨nofun, List.forall_mem_singleton.2
        (List.forall_mem_cons.2 ⟨.leaf (.text ""), List.forall_mem_cons.2 ⟨.enum _ _ _, List.forall_mem_cons.2
          ⟨hasShape_dial 0 "", List.forall_mem_cons.2 ⟨.absent _, List.forall_mem_cons.2 ⟨.leaf (.number ⟨.float32, 0⟩),
            List.forall_mem_cons.2 ⟨.absent _, List.forall_mem_cons.2 ⟨.absent _,
              List.forall_mem_singleton.2 (.absent _)⟩⟩⟩⟩⟩⟩⟩)⟩⟩
  exact suited_of_records (declared_of_records (by decide +kernel) fits _) (by decide +kernel) rfl

theorem read_render_trimmed_station :
    render (station " = [a];" "# b\t") = .ok stationText ∧
      read stations (.record "Station") stationText = .ok (station "= [a];" "# b") := by
  have fits : stations.HasShape (station " = [a];" "# b\t") (.record "Station") :=
    .record rfl (.cons (.leaf (.text _)) (.cons (.enum _ _ _) (.cons (hasShape_dial _ _)
      (.cons (.present (hasShape_dial _ _)) (.cons (.leaf (.number ⟨.float32, _⟩)) (.cons (.present (.record rfl .nil))
        (.cons (.absent _) (.cons (.present (.leaf (.number ⟨.int8, _⟩))) .nil))))))))
  have written : render (station " = [a];" "# b\t") = .ok stationText :=
    Except.toOption_eq_some_iff.1 (by decide +kernel)
  exact ⟨written, read_render_trimmed suited_stations fits (clear_of_all (by decide +kernel)) written⟩

end Settings
end AssetRecords
