import AssetRecords.Json.Decoder
import AssetRecords.Proofs.Collapse
import AssetRecords.Proofs.Fields
import AssetRecords.Proofs.Initial
import AssetRecords.Proofs.Json.Documents
import AssetRecords.Proofs.Json.Trees
import AssetRecords.Proofs.Outcome
/-!
# RoundTrip — the value of a tree

A tree is decoded into a value that is there already, and members are visited in the order of their keys.  Neither shows
if a type starts with nothing present and nothing in its sequences (`Schema.Plain`): then the tree of a value is decoded
to its collapse (`decodeInto_tree_collapse`), which is the value itself if nothing present in it looks absent
(`read_of_render`).
-/
namespace AssetRecords
namespace Json

variable {number : List Char → Option Number}

/-!
## What a text tells
-/

/-- A number is found again from the JSON number that its text is. -/
def Returns (number : List Char → Option Number) (s : Scalar) : Prop :=
  ∃ n, number s.chars = some n ∧ s.type.narrow n = .ok s.bits

instance (number : List Char → Option Number) (s : Scalar) : Decidable (Returns number s) :=
  decidable_of_iff ((number s.chars).any (fun n => decide ((s.type.narrow n).toOption = some s.bits)) = true) (by
    rw [Returns]
    cases number s.chars with
    | none => exact ⟨nofun, nofun⟩
    | some n =>
      rw [Option.any_some, decide_eq_true_eq, Except.toOption_eq_some_iff]
      exact ⟨fun narrow => ⟨n, rfl, narrow⟩, fun ⟨_, same, narrow⟩ => by cases same; exact narrow⟩)

/-- What JSON cannot tell of values in general: a key is to be found again, what is present is not to look absent, and a
floating-point number is to be found again from its own text, by whatever reads the numbers. -/
structure Faithful (number : List Char → Option Number) (v : Value) : Prop where
  keys : ∀ table variant key, (Value.enum table variant).Occurs v → table.keyOf? variant = some key →
    table.valueOf? key = some variant
  contents : ∀ content w, (Value.present content w).Occurs v → isAbsent w = false
  floats : ∀ (w : Value) (s : Scalar), w.Occurs v → s ∈ w.scalars → s.type.isFloating = true → Returns number s

/-- What `Faithful` asks of a value apart from its parts. -/
def faithful (number : List Char → Option Number) : Value → Bool
  | .enum table variant => (table.keyOf? variant).all fun key => decide (table.valueOf? key = some variant)
  | .present _ w => !isAbsent w
  | w => w.scalars.all fun s => decide (s.type.isFloating = true → Returns number s)

theorem faithful_of_all {v : Value} (h : v.all (faithful number) = true) : Faithful number v := by
  rw [Value.all_eq_true_iff] at h
  refine ⟨fun table variant key occurs listed => ?_, fun content w occurs => ?_, fun w s occurs hs floating => ?_⟩
  · have this := h _ occurs
    rw [faithful, listed] at this
    exact of_decide_eq_true this
  · have this := h _ occurs
    rwa [faithful, Bool.not_eq_true'] at this
  · have this := h w occurs
    cases w with
    | enum table variant => cases hs
    | present content w => cases hs
    | _ =>
      have each := List.all_eq_true.1 this s hs
      exact of_decide_eq_true each floating

/-- What JSON needs of keys and floating-point numbers: they are to be found again from their texts. -/
structure Spelled (number : List Char → Option Number) (v : Value) : Prop where
  keys : ∀ table variant key, (Value.enum table variant).Occurs v → table.keyOf? variant = some key →
    table.valueOf? key = some variant
  floats : ∀ (w : Value) (s : Scalar), w.Occurs v → s ∈ w.scalars → s.type.isFloating = true → Returns number s

theorem Faithful.spelled {v : Value} (h : Faithful number v) : Spelled number v := ⟨h.keys, h.floats⟩

theorem Spelled.part {p v : Value} (h : Spelled number v) (hp : p ∈ v.parts) : Spelled number p where
  keys table variant key occurs := h.keys table variant key (.part hp occurs)
  floats w s occurs := h.floats w s (.part hp occurs)

theorem Spelled.narrow_numeral (words : ReadsWords number) {v w : Value} (h : Spelled number v) (occurs : w.Occurs v)
    {s : Scalar} (hs : s ∈ w.scalars) : IsNumeral number s ∧ s.type.narrow (numeral number s) = .ok s.bits := by
  cases floating : s.type.isFloating with
  | true =>
    obtain ⟨n, read, narrow⟩ := h.floats w s occurs hs floating
    obtain ⟨numeral, rfl⟩ := isNumeral_of_eq_some read
    exact ⟨numeral, narrow⟩
  | false => exact isNumeral_of_isFloating words floating

theorem Spelled.numeric (words : ReadsWords number) {v : Value} (h : Spelled number v) : Numeric number v :=
  fun _ _ occurs hs => (h.narrow_numeral words occurs hs).1

/-- What stands in the text as if it were absent is what collapses to that. -/
theorem tree_eq_null_iff {v : Value} : tree number v = .null ↔ isAbsent (v.collapse isAbsent) = true := by
  induction v using Value.parts_induction with
  | step v ih =>
    cases v with
    | leaf l =>
      rw [Value.collapse]
      cases l <;> rw [tree] <;> constructor <;> intro h <;> cases h
    | absent content =>
      rw [Value.collapse, tree]
      exact ⟨fun _ => rfl, fun _ => rfl⟩
    | present content w =>
      rw [tree, ih w List.mem_cons_self, Value.collapse]
      split
      · rename_i absent
        exact ⟨fun _ => rfl, fun _ => absent⟩
      · rename_i here
        exact ⟨fun absent => absurd absent here, fun null => by cases null⟩
    | _ =>
      rw [tree, Value.collapse]
      constructor <;> intro h <;> cases h

/-- How many levels of parts a value is decoded through. -/
def descent (v : Value) : Nat := levels 0 1 v

theorem members_eq_filterMap (fields : List (String × Value)) : members number fields =
    fields.filterMap fun f => (if isAbsent f.2 then none else some (tree number f.2)).map (f.1, ·) := by
  induction fields with
  | nil => rfl
  | cons f rest ih =>
    rw [members, List.filterMap_cons, ih]
    cases isAbsent f.2 <;> rfl

theorem lookup_members {fields : List (String × Value)} (distinct : (fields.map (·.1)).Nodup) (f : String × Value)
    (hf : f ∈ fields) : (members number fields).lookup f.1 = if isAbsent f.2 then none else some (tree number f.2) := by
  rw [members_eq_filterMap]
  exact lookup_filterMap (g := fun v => if isAbsent v then none else some (tree number v)) distinct hf

theorem nodup_keys_members {fields : List (String × Value)} (distinct : (fields.map (·.1)).Nodup) :
    ((members number fields).map (·.1)).Nodup := by
  rw [members_eq_filterMap]
  exact distinct.sublist (sublist_keys_filterMap (fun v => if isAbsent v then none else some (tree number v)) fields)

/-- A leaf takes what the text of another leaf of its type is read as. -/
theorem assignLeaf_tree (words : ReadsWords number) {l l' : Leaf} (same : l'.type = l.type)
    (clear : Spelled number (.leaf l)) :
    assignLeaf l' (tree number (.leaf l)) = .ok l := by
  cases l with
  | bool b =>
    rw [tree]
    cases l' <;> cases same
    rfl
  | number s =>
    obtain ⟨-, narrow⟩ := clear.narrow_numeral words .self (List.mem_singleton_self s)
    rw [tree]
    cases l' with
    | number old =>
      obtain ⟨type, bits⟩ := old
      cases same
      show (fun bits => Leaf.number ⟨s.type, bits⟩) <$> s.type.narrow (numeral number s) = _
      rw [narrow]
      rfl
    | _ => cases same
  | text s =>
    rw [tree]
    cases l' <;> cases same
    rfl

theorem bulkCopy_numerals (words : ReadsWords number) {type : ScalarType} {ns : List type.Bits}
    (clear : Spelled number (.numbers type ns)) :
    bulkCopy type (ns.map fun bits => .number (numeral number ⟨type, bits⟩)) = .ok ns := by
  refine Except.mapM_map_eq_ok fun bits hb => ?_
  exact (clear.narrow_numeral words .self (s := ⟨type, bits⟩) (List.mem_map_of_mem hb)).2

/-- Parts that are decoded each from its tree are decoded together. -/
theorem mapM_zip_trees {decode : Value → Json → Except Error Value} {starts vs : List Value}
    (h : List.Forall₂ (fun start v => decode start (tree number v) = .ok (v.collapse isAbsent)) starts vs) :
    (starts.zip (trees number vs)).mapM (fun p => decode p.1 p.2) = .ok (vs.map (Value.collapse isAbsent)) := by
  refine Except.mapM_eq_ok_of_forall₂ ?_
  rw [trees_eq]
  induction h with
  | nil => exact .nil
  | cons first _ rest => exact .cons first rest

theorem targets_nil_left (initial : Value) (js : List Json) : targets initial [] js = js.map fun j => (initial, j) := by
  induction js with
  | nil => rfl
  | cons j rest ih => rw [targets, ih, List.map_cons]

section Decoding

variable {S : Schema} {L : Limits} {layout : Layout}

attribute [local simp] decodeInto

theorem decodeInto_leaf (words : ReadsWords number) {room : Nat} {l l' : Leaf} (same : l'.type = l.type)
    (clear : Spelled number (.leaf l)) :
    decodeInto S L (room + 1) (.leaf l') (tree number (.leaf l)) = .ok (.leaf l) := by
  have assigned := assignLeaf_tree words same clear
  cases l with
  | _ =>
    rw [tree] at assigned ⊢
    rw [decodeInto, assigned]
    · rfl
    · rintro _ ⟨⟩

theorem decodeInto_tuple {room : Nat} {starts vs : List Value}
    (each : List.Forall₂ (fun start v => decodeInto S L room start (tree number v) = .ok (v.collapse isAbsent)) starts vs) :
    decodeInto S L (room + 1) (.tuple starts) (tree number (.tuple vs)) = .ok ((Value.tuple vs).collapse isAbsent) := by
  rw [tree, decodeInto, if_pos, mapM_zip_trees each, Value.collapse, Value.collapseAll_eq]
  · rfl
  · rw [trees_eq, List.length_map, each.length_eq]

theorem decodeInto_numbers {room : Nat} {type : ScalarType} {ms ns : List type.Bits} {js : List Json}
    (copied : bulkCopy type js = .ok ns) (few : js.length ≤ L.maxElements) :
    decodeInto S L (room + 1) (.numbers type ms) (.array js) = .ok (.numbers type ns) := by
  rw [decodeInto, Limits.checkCount_eq_ok_iff.2 few]
  show (do return Value.numbers type (← bulkCopy type js)) = _
  rw [copied]
  rfl

theorem decodeInto_sequence {room : Nat} {element : Shape} {vs : List Value}
    (each : ∀ v ∈ vs, decodeInto S L room (S.initial element) (tree number v) = .ok (v.collapse isAbsent))
    (few : vs.length ≤ L.maxElements) :
    decodeInto S L (room + 1) (.sequence element []) (tree number (.sequence element vs)) =
      .ok ((Value.sequence element vs).collapse isAbsent) := by
  have admitted : L.checkCount (trees number vs).length = .ok () :=
    Limits.checkCount_eq_ok_iff.2 (by rwa [trees_eq, List.length_map])
  have decoded : (targets (S.initial element) [] (trees number vs)).mapM (fun p => decodeInto S L room p.1 p.2) =
      .ok (vs.map (Value.collapse isAbsent)) := by
    rw [targets_nil_left, trees_eq, List.map_map]
    exact Except.mapM_eq_ok_of_forall₂
      (List.forall₂_map_left_iff.2 (List.forall₂_map_right_iff.2 (List.forall₂_same.2 each)))
  rw [tree, decodeInto, admitted, Value.collapse, Value.collapseAll_eq]
  show Value.sequence element <$> (targets (S.initial element) [] (trees number vs)).mapM
    (fun p => decodeInto S L room p.1 p.2) = _
  rw [decoded]
  rfl

theorem decodeInto_record {room : Nat} {name : String} {start fields : List (String × Value)}
    (distinct : (fields.map (·.1)).Nodup) (same : start.map (·.1) = fields.map (·.1))
    (each : List.Forall₂ (fun w f => if isAbsent f.2 then w.2 = f.2 else
      decodeInto S L room w.2 (tree number f.2) = .ok (f.2.collapse isAbsent)) start fields) :
    decodeInto S L (room + 1) (.record name start) (tree number (.record name fields)) =
      .ok ((Value.record name fields).collapse isAbsent) := by
  have keys : List.Forall₂ (fun (w f : String × Value) => w.1 = f.1) start fields := by
    rw [← List.forall₂_eq_eq_eq, List.forall₂_map_left_iff, List.forall₂_map_right_iff] at same
    exact same
  have settled : List.Forall₂ (Fields.Settles (decodeInto S L room) (sorted (members number fields))) start
      (Value.collapseFields isAbsent fields) := by
    rw [Value.collapseFields_eq, List.forall₂_map_right_iff]
    refine forall₂_imp_of_mem (keys.mp (fun _ _ key each => And.intro key each) each) fun w _ f hf => ?_
    rintro ⟨key, each⟩
    refine ⟨key.symm, ?_⟩
    rw [lookup_sorted (nodup_keys_members distinct), key, lookup_members distinct f hf]
    split at each
    · rename_i absent
      obtain ⟨content, eq⟩ := exists_of_isAbsent absent
      rw [if_pos absent, each, eq, Value.collapse]
    · rename_i here
      rw [if_neg here]
      exact each
  rw [tree, decodeInto, Value.collapse]
  show Value.record name <$> (sorted (members number fields)).foldlM _ start = _
  rw [(Fields.foldlM_update_eq_ok_iff (nodup_keys_sorted _) (same ▸ distinct)).2 settled]
  rfl

/-- **The tree of a value is decoded to the value's collapse**, from whatever fresh value of its shape. -/
theorem decodeInto_tree_collapse (words : ReadsWords number) {room : Nat} {shape : Shape} {start v : Value}
    (plain : S.Plain shape) (starts : S.HasShape start shape) (fresh : start.Fresh) (fits : S.HasShape v shape)
    (written : ∃ depth t, (write layout depth v).Gives t) (spelled : Spelled number v) (deep : descent v < room)
    (wide : v.CountsWithin L.maxElements) : decodeInto S L room start (tree number v) = .ok (v.collapse isAbsent) := by
  induction room generalizing shape start v with
  | zero => exact absurd deep (Nat.not_lt_zero _)
  | succ room ih =>
    obtain ⟨depth, t, written⟩ := written
    have part : ∀ p ∈ v.parts, levels 0 1 p < room → ∀ {s : Shape} {w : Value}, S.Plain s → S.HasShape w s → w.Fresh →
        S.HasShape p s → decodeInto S L room w (tree number p) = .ok (p.collapse isAbsent) :=
      fun p hp lower _ _ plain starts fresh fits =>
        ih plain starts fresh fits (exists_gives_part written hp) (spelled.part hp) lower (wide.part hp)
    rw [descent] at deep
    cases fits with
    | leaf l =>
      obtain ⟨l', rfl, same⟩ := starts.exists_leaf
      rw [Value.collapse]
      exact decodeInto_leaf words same spelled
    | enum table variant initial =>
      obtain ⟨key, hkey, -⟩ := exists_key_of_gives written
      cases starts
      rw [tree, hkey, Option.getD_some, decodeInto, EnumTable.ofKey, spelled.keys table variant key .self hkey,
        Value.collapse]
      rfl
    | @record name fields keys shapes =>
      cases starts with
      | @record _ start keys' shapes' =>
      rw [levels] at deep
      refine decodeInto_record (keys ▸ plain.distinct name .self) (keys'.trans keys.symm) ?_
      have both := forall₂_of_common (Schema.forall₂_fields keys' shapes') (Schema.forall₂_fields keys shapes)
      refine forall₂_imp_of_mem both fun w hw f hf => ?_
      rintro ⟨type, htype, ⟨-, starts⟩, -, fits⟩
      have fresh : w.2.Fresh := fresh.part (List.mem_map_of_mem hw)
      split
      · rename_i absent
        -- what is left out of the text is absent from the start
        obtain ⟨content, hf⟩ := exists_of_isAbsent absent
        rw [hf] at fits ⊢
        generalize type.shape = shape at starts fits
        cases fits
        exact fresh.eq_absent starts
      · rename_i here
        have lower : levels 0 1 f.2 < levelsOfFields 0 1 fields :=
          levels_lt_levelsOfFields (Bool.eq_false_iff.2 here) hf
        exact part f.2 (List.mem_map_of_mem hf) (by omega) (plain.field htype) starts fresh fits
    | @tuple vs shapes fits =>
      cases starts with
      | @tuple ws _ starts =>
      rw [levels] at deep
      refine decodeInto_tuple (forall₂_imp_of_mem (forall₂_of_common starts fits) fun w hw p hp => ?_)
      rintro ⟨s, hs, starts, fits⟩
      have lower : levels 0 1 p < levelsOfAll 0 1 vs := levels_lt_levelsOfAll hp
      exact part p hp (by omega) (plain.element hs) starts (fresh.part hw) fits
    | @vector vs xs fits =>
      cases starts with
      | @vector ws _ starts =>
      rw [levels] at deep
      refine decodeInto_tuple (forall₂_imp_of_mem (forall₂_of_common starts fits) fun w hw p hp => ?_)
      rintro ⟨s, hs, starts, fits⟩
      obtain ⟨-, -, rfl⟩ := List.mem_map.1 hs
      have lower : levels 0 1 p < levelsOfAll 0 1 vs := levels_lt_levelsOfAll hp
      exact part p hp (by omega) (Schema.plain_leaf _) starts (fresh.part hw) fits
    | numbers type ns =>
      cases starts with
      | numbers _ ms =>
        rw [Value.collapse, tree]
        exact decodeInto_numbers (bulkCopy_numerals words spelled) ((List.length_map _).trans_le wide.self)
    | @sequence element vs fits =>
      cases starts with
      | @sequence _ ws starts =>
      obtain rfl : ws = [] := List.isEmpty_iff.1 (fresh _ .self)
      obtain ⟨starts', fresh'⟩ := Schema.fresh_initial element plain.sequence
      rw [levels] at deep
      refine decodeInto_sequence (fun p hp => ?_) wide.self
      have lower : levels 0 1 p < levelsOfAll 0 1 vs := levels_lt_levelsOfAll hp
      exact part p hp (by omega) plain.sequence starts' fresh' (fits p hp)
    | buffer wf => exact absurd .self plain.bufferless
    | absent content =>
      obtain rfl := fresh.eq_absent starts
      rw [tree, decodeInto, Value.collapse]
    | @present content w fit =>
      obtain rfl := fresh.eq_absent starts
      rw [levels] at deep
      obtain ⟨starts', fresh'⟩ := Schema.fresh_initial content plain.optional
      have back := part w List.mem_cons_self (by omega) plain.optional starts' fresh' fit
      rw [tree, Value.collapse]
      split
      · rename_i absent
        rw [tree_eq_null_iff.2 absent, decodeInto]
      · rename_i here
        rw [decodeInto, back]
        · rfl
        · exact fun null => here (tree_eq_null_iff.1 null)

end Decoding

section Reading

variable {S : Schema} {L : Limits} {shape : Shape} {layout : Layout} {v : Value} {t : String}
  {parse : List Char → Option Json}

/-- **JSON is read as the collapse of the value it was written for**, for shapes without buffers and within the
limits, by whatever parser conforms. -/
theorem readWith_collapse (conforms : Conforms parse number) (plain : S.Plain shape) (fits : S.HasShape v shape)
    (spaced : layout.Spaced) (written : render layout v = .ok t) (spelled : Spelled number v)
    (low : nesting v ≤ maxNesting) (deep : descent v ≤ L.maxDepth) (wide : v.CountsWithin L.maxElements) :
    readWith parse S L shape t = .ok (v.collapse isAbsent) := by
  obtain ⟨starts, fresh⟩ := Schema.fresh_initial shape plain
  have given := render_eq_ok_iff.1 written
  rw [readWith, conforms.parse_of_render spaced written (spelled.numeric conforms.words) low]
  exact decodeInto_tree_collapse conforms.words plain starts fresh fits ⟨0, _, given⟩ spelled (by omega) wide

/-- **JSON reads back what it writes**, for shapes without buffers, as far as the text tells the value to a parser that
conforms. -/
theorem read_of_render (conforms : Conforms parse number) (plain : S.Plain shape) (fits : S.HasShape v shape)
    (spaced : layout.Spaced) (written : render layout v = .ok t) (clear : Faithful number v)
    (low : nesting v ≤ maxNesting) (deep : descent v ≤ L.maxDepth) (wide : v.CountsWithin L.maxElements) :
    readWith parse S L shape t = .ok v := by
  have back := readWith_collapse conforms plain fits spaced written clear.spelled low deep wide
  rwa [Value.collapse_eq_self_iff.2 clear.contents] at back

end Reading

/-!
A record type without buffers, which holds records of its own, and a value of it.
-/

def lamps : Schema := Schema.declare {} "Lamp" [
  ("name", .leaf .text), ("kind", .enum .kinds 0), ("visible", .leaf .bool),
  ("place", .tuple [.leaf (.number .float32), .leaf (.number .int16)]), ("levels", .numbers .uint8),
  ("children", .sequence (.record "Lamp")), ("shade", .optional (.vector [⟨0#32⟩]))]

def lamp (name : String) (children : List Value) (shade : Value) : Value := .record "Lamp" [
  ("name", .leaf (.text name)), ("kind", .enum .kinds 1), ("visible", .leaf (.bool true)),
  ("place", .tuple [.leaf (.number ⟨.float32, 0x3fc00000#32⟩), .leaf (.number ⟨.int16, -7#16⟩)]),
  ("levels", .numbers .uint8 [0#8, 4#8]), ("children", .sequence (.record "Lamp") children), ("shade", shade)]

def chandelier : Value := lamp "root\t" [lamp "leaf" [] (.absent (.vector [⟨0#32⟩]))]
  (.present (.vector [⟨0#32⟩]) (.tuple [.leaf (.number ⟨.float32, 0xbe800000#32⟩)]))

theorem plain_lamps : lamps.Plain (.record "Lamp") := by
  have place : lamps.HasShape (.tuple [.leaf (.number ⟨.float32, 0⟩), .leaf (.number ⟨.int16, 0⟩)])
      (.tuple [.leaf (.number .float32), .leaf (.number .int16)]) :=
    .tuple (.cons (.leaf (.number ⟨.float32, 0⟩)) (.cons (.leaf (.number ⟨.int16, 0⟩)) .nil))
  have fits : ∀ r ∈ lamps.records, ∀ f ∈ r.fields, lamps.HasShape f.initial f.shape :=
    List.forall_mem_singleton.2 (List.forall_mem_cons.2 ⟨.leaf (.text ""), List.forall_mem_cons.2 ⟨.enum _ _ _,
      List.forall_mem_cons.2 ⟨.leaf (.bool false), List.forall_mem_cons.2 ⟨place, List.forall_mem_cons.2 ⟨.numbers _ _,
        List.forall_mem_cons.2 ⟨.sequence (List.forall_mem_nil _), List.forall_mem_singleton.2 (.absent _)⟩⟩⟩⟩⟩⟩)
  have rest : ∀ r ∈ lamps.records, (r.fields.map (·.key)).Nodup ∧
      ∀ f ∈ r.fields, f.shape.bufferless = true ∧ f.initial.Fresh := by decide +kernel
  exact Schema.plain_of_records (fun r hr => ⟨(rest r hr).1, fun f hf =>
    ⟨((rest r hr).2 f hf).1, fits r hr f hf, ((rest r hr).2 f hf).2⟩⟩) rfl

theorem hasShape_lamp {name : String} {children : List Value} {shade : Value}
    (hc : ∀ v ∈ children, lamps.HasShape v (.record "Lamp"))
    (hs : lamps.HasShape shade (.optional (.vector [⟨0#32⟩]))) :
    lamps.HasShape (lamp name children shade) (.record "Lamp") := by
  have place : lamps.HasShape (.tuple [.leaf (.number ⟨.float32, 0x3fc00000#32⟩), .leaf (.number ⟨.int16, -7#16⟩)])
      (.tuple [.leaf (.number .float32), .leaf (.number .int16)]) :=
    .tuple (.cons (.leaf (.number ⟨.float32, 0x3fc00000#32⟩)) (.cons (.leaf (.number ⟨.int16, -7#16⟩)) .nil))
  exact .record rfl (.cons (.leaf (.text name)) (.cons (.enum _ _ _) (.cons (.leaf (.bool true)) (.cons place
    (.cons (.numbers _ _) (.cons (.sequence hc) (.cons hs .nil)))))))

theorem read_of_render_chandelier :
    ∃ t, render {} chandelier = .ok t ∧ read lamps {} (.record "Lamp") t = .ok chandelier := by
  have leaf : lamps.HasShape (lamp "leaf" [] (.absent (.vector [⟨0#32⟩]))) (.record "Lamp") :=
    hasShape_lamp (List.forall_mem_nil _) (.absent _)
  have fits : lamps.HasShape chandelier (.record "Lamp") := hasShape_lamp (List.forall_mem_singleton.2 leaf)
    (.present (.vector (.cons (.leaf (.number ⟨.float32, 0xbe800000#32⟩)) .nil)))
  have accepted : (write {} 0 chandelier).refusal = none := by decide +kernel
  have written := render_of_refusal_none accepted
  exact ⟨_, written, read_of_render conforms_parse? plain_lamps fits (by decide) written
    (faithful_of_all (by decide +kernel)) (by decide) (by decide) (by decide +kernel)⟩

end Json
end AssetRecords
