import AssetRecords.Proofs.Fields
import AssetRecords.Proofs.Json.Decoding
import Mathlib.Logic.Relation
/-!
# Objects — members by key, in any order, and members that nobody knows

Of members with different keys the order does not show in the record that they are decoded into, and a member whose key
the record does not have does not show at all, however deep in the tree (`decodeInto_gains`).  What a record is decoded
from says nothing of the fields whose keys do not occur: they stay (`object_by_key`).
-/
namespace AssetRecords
namespace Json

/-!
## One more member
-/

/-- A tree has one more member somewhere: in an object that is decoded into a record without such a key, when the tree is
decoded into a value. -/
inductive Gains (S : Schema) : Value → Json → Json → Prop where
  | stranger {name key : String} {fields : List (String × Value)} {ms ms' : List (String × Json)} {j : Json} :
    key ∉ fields.map (·.1) →
    Gains S (.record name fields) (.object (ms ++ ms')) (.object (ms ++ (key, j) :: ms'))
  | member {name key : String} {fields : List (String × Value)} {ms ms' : List (String × Json)} {v : Value}
    {j j' : Json} : Fields.find? key fields = some v → key ∉ ms.map (·.1) → Gains S v j j' →
    Gains S (.record name fields) (.object (ms ++ (key, j) :: ms')) (.object (ms ++ (key, j') :: ms'))
  | part {vs vs' : List Value} {js js' : List Json} {v : Value} {j j' : Json} : vs.length = js.length → Gains S v j j' →
    Gains S (.tuple (vs ++ v :: vs')) (.array (js ++ j :: js')) (.array (js ++ j' :: js'))
  | element {element : Shape} {vs : List Value} {js js' : List Json} {j j' : Json} :
    Gains S (vs[js.length]?.getD (S.initial element)) j j' →
    Gains S (.sequence element vs) (.array (js ++ j :: js')) (.array (js ++ j' :: js'))
  | content {v : Value} {content : Shape} {j j' : Json} : v.content? = some content → Gains S (S.initial content) j j' →
    Gains S v j j'

section Gaining

variable {S : Schema} {L : Limits} {room : Nat} {v : Value} {j j' : Json}

theorem Gains.ne_null (h : Gains S v j j') : j ≠ .null ∧ j' ≠ .null := by
  induction h with
  | content _ _ ih => exact ih
  | _ => exact ⟨nofun, nofun⟩

theorem decodeInto_object {name : String} {fields : List (String × Value)} {ms : List (String × Json)} :
    decodeInto S L (room + 1) (.record name fields) (.object ms) = .record name <$>
      ms.foldlM (fun fields m => Fields.update m.1 (fun v => decodeInto S L room v m.2) fields) fields := by
  rw [decodeInto]

theorem decodeInto_content {content : Shape} (optional : v.content? = some content) (null : j ≠ .null) :
    decodeInto S L (room + 1) v j = .present content <$> decodeInto S L room (S.initial content) j := by
  cases v <;> cases optional <;> rw [decodeInto] <;> exact fun same => null same

theorem decodeInto_array {element : Shape} {vs : List Value} {js : List Json} :
    decodeInto S L (room + 1) (.sequence element vs) (.array js) = (do
      L.checkCount js.length
      .sequence element <$> (targets (S.initial element) vs js).mapM fun p => decodeInto S L room p.1 p.2) := rfl

theorem targets_append (initial : Value) : ∀ (js : List Json) (vs : List Value) (js' : List Json),
    targets initial vs (js ++ js') = targets initial vs js ++ targets initial (vs.drop js.length) js'
  | [], vs, js' => by rw [targets_nil_right, List.nil_append, List.nil_append, List.length_nil, List.drop_zero]
  | j :: js, vs, js' => by
    rw [List.cons_append, targets_cons, targets_append initial js, targets_cons, List.cons_append, List.length_cons,
      List.drop_tail]

theorem mapM_congr_at {decode : Value → Json → Except Error Value} (same : decode v j' = decode v j)
    (ps ps' : List (Value × Json)) :
    (ps ++ (v, j') :: ps').mapM (fun p => decode p.1 p.2) = (ps ++ (v, j) :: ps').mapM fun p => decode p.1 p.2 := by
  rw [List.mapM_append, List.mapM_append, List.mapM_cons, List.mapM_cons, same]

/-- **A member that no record knows does not show**: neither in what is decoded nor in why nothing is. -/
theorem decodeInto_gains (h : Gains S v j j') : decodeInto S L room v j' = decodeInto S L room v j := by
  -- the induction is on the way to the object; what is on the way is decoded with one level less
  induction h generalizing room with
  | stranger unknown =>
    cases room with
    | zero => rfl
    | succ room => rw [decodeInto_object, decodeInto_object, Fields.foldlM_update_skip unknown]
  | member found once _ ih =>
    cases room with
    | zero => rfl
    | succ room => rw [decodeInto_object, decodeInto_object, Fields.foldlM_update_congr ih found once]
  | @part vs vs' js js' v j j' length _ ih =>
    cases room with
    | zero => rfl
    | succ room =>
      have pairs : ∀ j : Json, (vs ++ v :: vs').zip (js ++ j :: js') = vs.zip js ++ (v, j) :: vs'.zip js' := fun j => by
        rw [List.zip_append length, List.zip_cons_cons]
      rw [decodeInto, decodeInto, pairs, pairs, mapM_congr_at ih, List.length_append, List.length_append,
        List.length_append, List.length_cons, List.length_cons, List.length_cons]
  | @element element vs js js' j j' _ ih =>
    cases room with
    | zero => rfl
    | succ room =>
      have target : (vs.drop js.length).head? = vs[js.length]? := List.head?_drop
      rw [decodeInto_array, decodeInto_array, targets_append, targets_append, targets_cons, targets_cons, target,
        mapM_congr_at ih, List.length_append, List.length_append, List.length_cons, List.length_cons]
  | content optional gains ih =>
    cases room with
    | zero => rfl
    | succ room =>
      obtain ⟨null, null'⟩ := gains.ne_null
      rw [decodeInto_content optional null, decodeInto_content optional null', ih]

end Gaining

/-- **Objects are read by key, in any order, and strangers are passed over.**  Of members with different keys each is
decoded into the field of its key, in whatever order they are visited, and fields that no member names keep what they
start with; members that are put in wherever the tree is decoded into a record without such a key change nothing at
all. -/
theorem object_by_key (S : Schema) (L : Limits) (room : Nat) :
    (∀ (name : String) (fields : List (String × Value)) (ms : List (String × Json)) (w : Value),
      (fields.map (·.1)).Nodup → (ms.map (·.1)).Nodup →
        (decodeInto S L (room + 1) (.record name fields) (.object ms) = .ok w ↔
          ∃ final, w = .record name final ∧ List.Forall₂ (Fields.Settles (decodeInto S L room) ms) fields final) ∧
        (decodeInto S L (room + 1) (.record name fields) (.object ms) = .ok w →
          (∀ ms', ms.Perm ms' → decodeInto S L (room + 1) (.record name fields) (.object ms') = .ok w) ∧
          ∃ final, w = .record name final ∧
            ∀ key, key ∉ ms.map (·.1) → Fields.find? key final = Fields.find? key fields)) ∧
    ∀ v j j', Relation.ReflTransGen (Gains S v) j j' → decodeInto S L room v j' = decodeInto S L room v j := by
  constructor
  · intro name fields ms w distinct once
    have byKey : decodeInto S L (room + 1) (.record name fields) (.object ms) = .ok w ↔
        ∃ final, w = .record name final ∧ List.Forall₂ (Fields.Settles (decodeInto S L room) ms) fields final := by
      rw [decodeInto_object, Except.map_eq_ok_iff]
      refine exists_congr fun final => ?_
      rw [Fields.foldlM_update_eq_ok_iff once distinct, and_comm, eq_comm]
    refine ⟨byKey, fun h => ?_⟩
    rw [decodeInto_object] at h
    obtain ⟨final, settled, rfl⟩ := Except.map_eq_ok_iff.1 h
    refine ⟨fun ms' perm => ?_, final, rfl, (Fields.keys_of_foldlM_update settled).2⟩
    rw [decodeInto_object]
    exact Except.map_eq_ok_iff.2 ⟨final, Fields.foldlM_update_perm perm once distinct settled, rfl⟩
  · intro v j j' gains
    induction gains with
    | refl => rfl
    | tail _ gains ih => rw [decodeInto_gains gains, ih]

/-!
A shelf with boxes on it and a box in it.
-/

def shelves : Schema := Schema.declare {} "Box" [("size", .leaf (.number .uint8))]

def shelf (label : String) (boxes : List Value) (inside : Value) : Value := .record "Shelf" [
  ("label", .leaf (.text label)), ("boxes", .sequence (.record "Box") boxes), ("inside", inside)]

def box (size : BitVec 8) : Value := .record "Box" [("size", .leaf (.number ⟨.uint8, size⟩))]

/-- What goes to the shelf: a box on it and a box in it, with members besides the ones that a box has. -/
def cargo (extra extra' : List (String × Json)) : List (String × Json) := [
  ("boxes", .array [.object (extra ++ [("size", .number (.uint 1))])]),
  ("inside", .object (("size", .number (.uint 2)) :: extra'))]

theorem object_by_key_shelf :
    let start := shelf "A" [] (.absent (.record "Box"))
    let final := shelf "A" [box 1#8] (.present (.record "Box") (box 2#8))
    decodeInto shelves {} 4 start (.object (cargo [] [])) = .ok final ∧
      decodeInto shelves {} 4 start (.object (cargo [] []).reverse) = .ok final ∧
      decodeInto shelves {} 4 start
        (.object (("color", .null) :: cargo [("lid", .object [])] [("lid", .array [.null])])) = .ok final := by
  intro start final
  obtain ⟨byKey, -⟩ := object_by_key shelves {} 3
  obtain ⟨-, passed⟩ := object_by_key shelves {} 4
  have had : decodeInto shelves {} 4 start (.object (cargo [] [])) = .ok final := rfl
  obtain ⟨anyOrder, -⟩ := (byKey _ _ _ _ (by decide) (by decide)).2 had
  have first : Gains shelves start (.object (cargo [] [])) (.object (cargo [("lid", .object [])] [])) :=
    @Gains.member _ _ "boxes" _ [] _ _ _ _ rfl nofun
      (@Gains.element _ _ [] [] [] _ _ (@Gains.stranger _ "Box" "lid" _ [] _ (.object []) (by decide)))
  have second : Gains shelves start (.object (cargo [("lid", .object [])] []))
      (.object (cargo [("lid", .object [])] [("lid", .array [.null])])) :=
    @Gains.member _ _ "inside" _ [_] _ _ _ _ rfl (by decide)
      (.content rfl (@Gains.stranger _ "Box" "lid" _ [_] _ (.array [.null]) (by decide)))
  have third : Gains shelves start (.object (cargo [("lid", .object [])] [("lid", .array [.null])]))
      (.object (("color", .null) :: cargo [("lid", .object [])] [("lid", .array [.null])])) :=
    @Gains.stranger _ _ "color" _ [] _ .null (by decide)
  exact ⟨had, anyOrder _ (List.reverse_perm _).symm, (passed _ _ _ (.tail (.tail (.single first) second) third)).trans had⟩

end Json
end AssetRecords
