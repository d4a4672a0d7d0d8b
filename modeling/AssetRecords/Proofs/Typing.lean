import AssetRecords.Limits
import AssetRecords.Proofs.Buffer
import AssetRecords.Schema.Value
import Mathlib.Data.List.Forall2
/-!
# Typing — the values that a shape describes

`Schema.HasShape` says which values a shape describes, and `Value.Occurs` which values are found in a value: that is how
the conditions under which a format keeps a value are stated.  What is asked of everything that occurs can be computed
(`all_eq_true_iff`).  The depth of a value counts its levels of parts as the readers do, and a part is less deep than
the whole (`depth_lt_of_mem_parts`): a reader's room for levels carries every induction over values.
-/
namespace AssetRecords

theorem forall₂_imp_of_mem {α β : Type} {R S : α → β → Prop} {as : List α} {bs : List β} (h : List.Forall₂ R as bs)
    (imp : ∀ a ∈ as, ∀ b ∈ bs, R a b → S a b) : List.Forall₂ S as bs := by
  obtain ⟨length, each⟩ := List.forall₂_iff_zip.1 h
  refine List.forall₂_iff_zip.2 ⟨length, fun hab => ?_⟩
  obtain ⟨ha, hb⟩ := List.of_mem_zip hab
  exact imp _ ha _ hb (each hab)

theorem forall₂_congr_iff {α β : Type} {R R' : α → β → Prop} (h : ∀ a b, R a b ↔ R' a b) {as : List α} {bs : List β} :
    List.Forall₂ R as bs ↔ List.Forall₂ R' as bs :=
  ⟨fun all => all.imp fun a b => (h a b).1, fun all => all.imp fun a b => (h a b).2⟩

theorem eq_of_forall₂ {α β : Type} {P Q : α → β → Prop} {as : List α} {bs cs : List β} (first : List.Forall₂ P as bs)
    (second : List.Forall₂ Q as cs) (same : ∀ a ∈ as, ∀ b c, P a b → Q a c → b = c) : bs = cs := by
  induction first generalizing cs with
  | nil =>
    cases second
    rfl
  | cons head _ ih =>
    obtain ⟨here, same⟩ := List.forall_mem_cons.1 same
    cases second with
    | cons head' tail' => rw [here _ _ head head', ih tail' same]

theorem exists_of_mem_forall₂ {α β : Type} {R : α → β → Prop} {as : List α} {bs : List β} (h : List.Forall₂ R as bs)
    {b : β} (hb : b ∈ bs) : ∃ a ∈ as, R a b := by
  induction h with
  | nil => cases hb
  | cons first _ ih =>
    rcases List.mem_cons.1 hb with rfl | hb
    · exact ⟨_, List.mem_cons_self, first⟩
    · obtain ⟨a, ha, related⟩ := ih hb
      exact ⟨a, List.mem_cons_of_mem _ ha, related⟩

/-- What two lists share with a third one they share with each other. -/
theorem forall₂_of_common {α β γ : Type} {P : α → γ → Prop} {Q : β → γ → Prop} {as : List α} {bs : List β}
    {cs : List γ} (hp : List.Forall₂ P as cs) (hq : List.Forall₂ Q bs cs) :
    List.Forall₂ (fun a b => ∃ c ∈ cs, P a c ∧ Q b c) as bs := by
  induction hp generalizing bs with
  | nil =>
    cases hq
    exact .nil
  | cons first _ ih =>
    cases hq with
    | cons first' rest' =>
      refine .cons ⟨_, List.mem_cons_self, first, first'⟩ ((ih rest').imp fun a b => ?_)
      rintro ⟨c, hc, related⟩
      exact ⟨c, List.mem_cons_of_mem _ hc, related⟩

/-- If each element has a counterpart then there is a list of counterparts. -/
theorem exists_forall₂ {α β : Type} {R : α → β → Prop} : ∀ {as : List α}, (∀ a ∈ as, ∃ b, R a b) →
    ∃ bs, List.Forall₂ R as bs
  | [], _ => ⟨[], .nil⟩
  | a :: as, h => by
    obtain ⟨b, first⟩ := h a List.mem_cons_self
    obtain ⟨bs, rest⟩ := exists_forall₂ fun a ha => h a (List.mem_cons_of_mem _ ha)
    exact ⟨b :: bs, .cons first rest⟩

/-- What relates two lists by way of something else relates both to a list of that. -/
theorem exists_between {α β γ : Type} {P : α → β → Prop} {Q : β → γ → Prop} {as : List α} {cs : List γ}
    (h : List.Forall₂ (fun a c => ∃ b, P a b ∧ Q b c) as cs) : ∃ bs, List.Forall₂ P as bs ∧ List.Forall₂ Q bs cs := by
  induction h with
  | nil => exact ⟨[], .nil, .nil⟩
  | cons first _ ih =>
    obtain ⟨b, hp, hq⟩ := first
    obtain ⟨bs, hps, hqs⟩ := ih
    exact ⟨b :: bs, .cons hp hps, .cons hq hqs⟩

namespace Schema

/-- A value is one of those that a shape describes. -/
inductive HasShape (S : Schema) : Value → Shape → Prop where
  | leaf (l : Leaf) : HasShape S (.leaf l) (.leaf l.type)
  | enum (table : EnumTable) (variant initial : Nat) : HasShape S (.enum table variant) (.enum table initial)
  | record {name : String} {fields : List (String × Value)} :
    fields.map (·.1) = (S.fieldsOf name).map (·.key) →
    List.Forall₂ (HasShape S) (fields.map (·.2)) ((S.fieldsOf name).map (·.shape)) →
    HasShape S (.record name fields) (.record name)
  | tuple {vs : List Value} {shapes : List Shape} :
    List.Forall₂ (HasShape S) vs shapes → HasShape S (.tuple vs) (.tuple shapes)
  | vector {vs : List Value} {xs : List Single} :
    List.Forall₂ (HasShape S) vs (xs.map fun _ => .leaf (.number .float32)) → HasShape S (.tuple vs) (.vector xs)
  | numbers (type : ScalarType) (ns : List type.Bits) : HasShape S (.numbers type ns) (.numbers type)
  | sequence {element : Shape} {vs : List Value} :
    (∀ v ∈ vs, HasShape S v element) → HasShape S (.sequence element vs) (.sequence element)
  | buffer {b : Buffer} : b.WellFormed → HasShape S (.buffer b) .buffer
  | absent (content : Shape) : HasShape S (.absent content) (.optional content)
  | present {content : Shape} {v : Value} : HasShape S v content → HasShape S (.present content v) (.optional content)

/-- A shape is found in itself and in whatever it is found in a part of. -/
inductive Contains (S : Schema) (s : Shape) : Shape → Prop where
  | self : Contains S s s
  | field {name : String} {f : FieldType} : f ∈ S.fieldsOf name → Contains S s f.shape → Contains S s (.record name)
  | element {e : Shape} {elements : List Shape} : e ∈ elements → Contains S s e → Contains S s (.tuple elements)
  | sequence {e : Shape} : Contains S s e → Contains S s (.sequence e)
  | optional {e : Shape} : Contains S s e → Contains S s (.optional e)

theorem Contains.trans {S : Schema} {s e shape : Shape} (h : S.Contains s e) (contains : S.Contains e shape) :
    S.Contains s shape := by
  induction contains with
  | self => exact h
  | field hf _ ih => exact .field hf ih
  | element he _ ih => exact .element he ih
  | sequence _ ih => exact .sequence ih
  | optional _ ih => exact .optional ih

end Schema

namespace Value

/-- The values that a value is made of; the numbers of a block are none. -/
def parts : Value → List Value
  | record _ fields => fields.map (·.2)
  | tuple vs | sequence _ vs => vs
  | present _ v => [v]
  | _ => []

/-- A value occurs in itself and in whatever it occurs in a part of. -/
inductive Occurs (w : Value) : Value → Prop where
  | self : Occurs w w
  | part {p v : Value} : p ∈ v.parts → Occurs w p → Occurs w v

theorem Occurs.trans {w p v : Value} (h : w.Occurs p) (occurs : p.Occurs v) : w.Occurs v := by
  induction occurs with
  | self => exact h
  | part hp _ ih => exact .part hp ih

/-- How many elements a sequence or a buffer has; of nothing else they are counted. -/
def count : Value → Nat
  | numbers _ ns => ns.length
  | sequence _ vs => vs.length
  | buffer b => b.length
  | _ => 0

/-- No sequence and no buffer in a value has more elements than so many. -/
def CountsWithin (v : Value) (most : Nat) : Prop := ∀ w : Value, w.Occurs v → w.count ≤ most

theorem CountsWithin.self {v : Value} {most : Nat} (h : v.CountsWithin most) : v.count ≤ most := h v .self

theorem CountsWithin.part {p v : Value} {most : Nat} (h : v.CountsWithin most) (hp : p ∈ v.parts) :
    p.CountsWithin most := fun w hw => h w (.part hp hw)

/-- The numbers that a value holds itself. -/
def scalars : Value → List Scalar
  | leaf (.number n) => [n]
  | numbers type ns => ns.map (.mk type)
  | buffer b => b.scalars
  | _ => []

mutual

/-- How many levels of parts are below a value.  The numbers of a block make up `block` levels. -/
def depth (block : Nat) : Value → Nat
  | .record _ fields => depthOfFields block fields
  | .tuple vs | .sequence _ vs => depthOfAll block vs
  | .numbers _ ns => if ns.isEmpty then 0 else block
  | .present _ v => v.depth block + 1
  | _ => 0

def depthOfFields (block : Nat) : List (String × Value) → Nat
  | [] => 0
  | (_, v) :: rest => max (v.depth block + 1) (depthOfFields block rest)

def depthOfAll (block : Nat) : List Value → Nat
  | [] => 0
  | v :: rest => max (v.depth block + 1) (depthOfAll block rest)

end

theorem depthOfFields_eq (block : Nat) (fields : List (String × Value)) :
    depthOfFields block fields = depthOfAll block (fields.map (·.2)) := by
  induction fields with
  | nil => rw [depthOfFields, List.map_nil, depthOfAll]
  | cons f rest ih => rw [depthOfFields, List.map_cons, depthOfAll, ih]

theorem depth_lt_depthOfAll {block : Nat} {p : Value} :
    ∀ {vs : List Value}, p ∈ vs → p.depth block < depthOfAll block vs
  | v :: rest, h => by
    rw [depthOfAll]
    rcases List.mem_cons.1 h with rfl | h
    · omega
    · have : p.depth block < depthOfAll block rest := depth_lt_depthOfAll h
      omega

/-- **A part is less deep than the whole.** -/
theorem depth_lt_of_mem_parts {block : Nat} {p v : Value} (h : p ∈ v.parts) : p.depth block < v.depth block := by
  cases v with
  | record name fields =>
    rw [depth, depthOfFields_eq]
    exact depth_lt_depthOfAll h
  | tuple vs =>
    rw [depth]
    exact depth_lt_depthOfAll h
  | sequence element vs =>
    rw [depth]
    exact depth_lt_depthOfAll h
  | present content v =>
    rw [depth]
    obtain rfl := List.mem_singleton.1 h
    omega
  | _ => cases h

/-- What holds of a value if it holds of its parts holds of all values. -/
theorem parts_induction {P : Value → Prop} (step : ∀ v : Value, (∀ p ∈ v.parts, P p) → P v) (v : Value) : P v := by
  induction hd : v.depth 0 using Nat.strongRecOn generalizing v with
  | ind d ih =>
    subst hd
    exact step v fun p hp => ih _ (depth_lt_of_mem_parts hp) p rfl

mutual

/-- A test passed by everything that occurs in a value. -/
def all (test : Value → Bool) : Value → Bool
  | .record name fields => test (.record name fields) && allOfFields test fields
  | .tuple vs => test (.tuple vs) && allOfAll test vs
  | .sequence element vs => test (.sequence element vs) && allOfAll test vs
  | .present content v => test (.present content v) && v.all test
  | .leaf l => test (.leaf l)
  | .enum table variant => test (.enum table variant)
  | .numbers type ns => test (.numbers type ns)
  | .buffer b => test (.buffer b)
  | .absent content => test (.absent content)

def allOfFields (test : Value → Bool) : List (String × Value) → Bool
  | [] => true
  | (_, v) :: rest => v.all test && allOfFields test rest

def allOfAll (test : Value → Bool) : List Value → Bool
  | [] => true
  | v :: rest => v.all test && allOfAll test rest

end

theorem allOfAll_eq (test : Value → Bool) (vs : List Value) : allOfAll test vs = vs.all (·.all test) := by
  induction vs with
  | nil => rw [allOfAll, List.all_nil]
  | cons v rest ih => rw [allOfAll, List.all_cons, ih]

theorem allOfFields_eq (test : Value → Bool) (fields : List (String × Value)) :
    allOfFields test fields = (fields.map (·.2)).all (·.all test) := by
  induction fields with
  | nil => rw [allOfFields, List.map_nil, List.all_nil]
  | cons f rest ih => rw [allOfFields, List.map_cons, List.all_cons, ih]

theorem all_eq (test : Value → Bool) (v : Value) : v.all test = (test v && v.parts.all (·.all test)) := by
  cases v <;> simp [all, parts, allOfAll_eq, allOfFields_eq]

theorem all_eq_true_iff {test : Value → Bool} {v : Value} :
    v.all test = true ↔ ∀ w : Value, w.Occurs v → test w = true := by
  constructor
  · intro h w occurs
    induction occurs with
    | self =>
      rw [all_eq, Bool.and_eq_true] at h
      exact h.1
    | part hp _ ih =>
      rw [all_eq, Bool.and_eq_true] at h
      exact ih (List.all_eq_true.1 h.2 _ hp)
  · intro h
    induction v using parts_induction with
    | step v ih =>
      rw [all_eq, Bool.and_eq_true]
      exact ⟨h v .self, List.all_eq_true.2 fun p hp => ih p hp fun w hw => h w (.part hp hw)⟩

instance (v : Value) (most : Nat) : Decidable (v.CountsWithin most) :=
  decidable_of_iff (v.all fun w => decide (w.count ≤ most)) (by
    rw [all_eq_true_iff]
    exact forall₂_congr fun _ _ => decide_eq_true_iff)

end Value

mutual

/-- The enum tables that a shape names, those of record types apart. -/
def Shape.tables : Shape → List EnumTable
  | .enum table _ => [table]
  | .tuple elements => tablesOfAll elements
  | .sequence s | .optional s => s.tables
  | _ => []

def Shape.tablesOfAll : List Shape → List EnumTable
  | [] => []
  | s :: rest => s.tables ++ tablesOfAll rest

end

theorem Shape.mem_tablesOfAll {table : EnumTable} {s : Shape} (h : table ∈ s.tables) :
    ∀ {shapes : List Shape}, s ∈ shapes → table ∈ tablesOfAll shapes
  | t :: rest, hs => by
    rw [tablesOfAll, List.mem_append]
    rcases List.mem_cons.1 hs with rfl | hs
    · exact .inl h
    · exact .inr (mem_tablesOfAll h hs)

/-- An enum that is found in a shape has its table there or in a record type. -/
theorem Schema.Contains.mem_tables {S : Schema} {table : EnumTable} {initial : Nat} {shape : Shape}
    (h : S.Contains (.enum table initial) shape) :
    table ∈ shape.tables ∨ ∃ r ∈ S.records, ∃ f ∈ r.fields, table ∈ f.shape.tables := by
  induction h with
  | self => exact .inl (by rw [Shape.tables]; exact List.mem_singleton_self _)
  | @field name f hf _ ih =>
    refine .inr (ih.elim (fun h => ?_) id)
    rw [fieldsOf, Schema.find?] at hf
    cases hr : S.records.find? (·.name == name) with
    | none => rw [hr] at hf; cases hf
    | some r => rw [hr] at hf; exact ⟨r, List.mem_of_find?_eq_some hr, f, hf, h⟩
  | element hs _ ih => exact ih.imp_left fun h => by rw [Shape.tables]; exact Shape.mem_tablesOfAll h hs
  | sequence _ ih => exact ih.imp_left fun h => by rwa [Shape.tables]
  | optional _ ih => exact ih.imp_left fun h => by rwa [Shape.tables]

/-!
## A value to try

A record with a part of every kind, its children being records of the same type.
-/

/-- The kinds of node. -/
def EnumTable.kinds : EnumTable := ⟨"Kind", [(0, "still"), (1, "moving")]⟩

/-- A record type with a field for every kind of shape, which holds records of its own. -/
def Schema.nodes : Schema := Schema.declare {} "Node" [
  ("name", .leaf .text), ("kind", .enum .kinds 0), ("visible", .leaf .bool),
  ("place", .tuple [.leaf (.number .float32), .leaf (.number .int16)]), ("levels", .numbers .uint8),
  ("children", .sequence (.record "Node")), ("blob", .buffer), ("lamp", .optional (.vector [⟨0#32⟩]))]

/-- A node with numbers of its own. -/
def Value.node (name : String) (x : BitVec 32) (children : List Value) (lamp : Value) : Value := .record "Node" [
  ("name", .leaf (.text name)), ("kind", .enum .kinds 1), ("visible", .leaf (.bool true)),
  ("place", .tuple [.leaf (.number ⟨.float32, x⟩), .leaf (.number ⟨.int16, -7#16⟩)]), ("levels", .numbers .uint8 [0#8, 4#8]),
  ("children", .sequence (.record "Node") children), ("blob", .buffer (.ofList .int16 [-1#16, 7#16])), ("lamp", lamp)]

/-- A node with a child. -/
def Value.specimen (x : BitVec 32) : Value := .node "root" x
  [.node "leaf\n" x [] (.absent (.vector [⟨0#32⟩]))] (.present (.vector [⟨0#32⟩]) (.tuple [.leaf (.number ⟨.float32, x⟩)]))

theorem Schema.hasShape_node {name : String} {x : BitVec 32} {children : List Value} {lamp : Value}
    (hc : ∀ v ∈ children, nodes.HasShape v (.record "Node")) (hl : nodes.HasShape lamp (.optional (.vector [⟨0#32⟩]))) :
    nodes.HasShape (.node name x children lamp) (.record "Node") := by
  refine .record rfl ?_
  have place : nodes.HasShape (.tuple [.leaf (.number ⟨.float32, x⟩), .leaf (.number ⟨.int16, -7#16⟩)])
      (.tuple [.leaf (.number .float32), .leaf (.number .int16)]) :=
    .tuple (.cons (.leaf (.number ⟨.float32, x⟩)) (.cons (.leaf (.number ⟨.int16, -7#16⟩)) .nil))
  have blob : nodes.HasShape (.buffer (.ofList .int16 [-1#16, 7#16])) .buffer :=
    .buffer (Buffer.wellFormed_ofList (by decide))
  exact .cons (.leaf (.text name)) (.cons (.enum _ _ _) (.cons (.leaf (.bool true)) (.cons place (.cons (.numbers _ _)
    (.cons (.sequence hc) (.cons blob (.cons hl .nil)))))))

theorem Schema.hasShape_specimen (x : BitVec 32) : nodes.HasShape (.specimen x) (.record "Node") :=
  hasShape_node (List.forall_mem_singleton.2 (hasShape_node (List.forall_mem_nil _) (.absent _)))
    (.present (.vector (.cons (.leaf (.number ⟨.float32, x⟩)) .nil)))

theorem Schema.nodup_of_nodes {table : EnumTable} {initial : Nat}
    (h : nodes.Contains (.enum table initial) (.record "Node")) : (table.rows.map (·.1)).Nodup := by
  have all : ∀ r ∈ nodes.records, ∀ f ∈ r.fields, ∀ table ∈ f.shape.tables, (table.rows.map (·.1)).Nodup := by
    decide +kernel
  rcases h.mem_tables with h | ⟨r, hr, f, hf, h⟩
  · cases h
  · exact all r hr f hf table h

end AssetRecords
