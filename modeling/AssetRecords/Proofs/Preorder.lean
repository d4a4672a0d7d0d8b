import AssetRecords.Proofs.Typing
/-!
# Preorder — the parts of a value in the order in which they are visited

Writers visit a value in front of its parts, and the parts one after the other.  `Value.preorder` lists what occurs in a
value in that order, so that the first of several faults is the first one in a list (`firstFault?_eq`).
-/
namespace AssetRecords
namespace Value

mutual

/-- What occurs in a value, each value in front of its parts. -/
def preorder : Value → List Value
  | .record name fields => .record name fields :: preorderOfFields fields
  | .tuple vs => .tuple vs :: preorderOfAll vs
  | .sequence element vs => .sequence element vs :: preorderOfAll vs
  | .present content v => .present content v :: v.preorder
  | .leaf l => [.leaf l]
  | .enum table variant => [.enum table variant]
  | .numbers type ns => [.numbers type ns]
  | .buffer b => [.buffer b]
  | .absent content => [.absent content]

def preorderOfFields : List (String × Value) → List Value
  | [] => []
  | (_, v) :: rest => v.preorder ++ preorderOfFields rest

def preorderOfAll : List Value → List Value
  | [] => []
  | v :: rest => v.preorder ++ preorderOfAll rest

end

theorem preorderOfAll_eq (vs : List Value) : preorderOfAll vs = vs.flatMap preorder := by
  induction vs with
  | nil => rw [preorderOfAll, List.flatMap_nil]
  | cons v rest ih => rw [preorderOfAll, List.flatMap_cons, ih]

theorem preorderOfFields_eq (fields : List (String × Value)) :
    preorderOfFields fields = (fields.map (·.2)).flatMap preorder := by
  induction fields with
  | nil => rw [preorderOfFields, List.map_nil, List.flatMap_nil]
  | cons f rest ih => rw [preorderOfFields, List.map_cons, List.flatMap_cons, ih]

theorem preorder_eq (v : Value) : v.preorder = v :: v.parts.flatMap preorder := by
  cases v <;> simp [preorder, parts, preorderOfAll_eq, preorderOfFields_eq]

theorem mem_preorder_iff {w v : Value} : w ∈ v.preorder ↔ w.Occurs v := by
  constructor
  · intro h
    induction v using parts_induction with
    | step v ih =>
      rw [preorder_eq] at h
      rcases List.mem_cons.1 h with rfl | h
      · exact .self
      · obtain ⟨p, hp, h⟩ := List.mem_flatMap.1 h
        exact .part hp (ih p hp h)
  · intro occurs
    induction occurs with
    | self =>
      rw [preorder_eq]
      exact List.mem_cons_self
    | part hp _ ih =>
      rw [preorder_eq]
      exact List.mem_cons_of_mem _ (List.mem_flatMap.2 ⟨_, hp, ih⟩)

/-- The first fault of what occurs in a value, in the order of visiting. -/
def firstFault? (fault? : Value → Option Error) (v : Value) : Option Error := v.preorder.findSome? fault?

variable {fault? : Value → Option Error}

theorem firstFault?_eq_none_iff {v : Value} : v.firstFault? fault? = none ↔ ∀ w : Value, w.Occurs v → fault? w = none := by
  rw [firstFault?, List.findSome?_eq_none_iff]
  exact forall_congr' fun w => by rw [mem_preorder_iff]

/-- The first of what several values make up the list of. -/
theorem findSome?_preorder (vs : List Value) :
    (vs.flatMap preorder).findSome? fault? = vs.findSome? (firstFault? fault?) := by
  induction vs with
  | nil => rfl
  | cons v rest ih =>
    rw [List.flatMap_cons, List.findSome?_append, ih, List.findSome?_cons, firstFault?]
    cases v.preorder.findSome? fault? <;> rfl

/-- **A fault of the value itself comes first**, and then those of its parts in order. -/
theorem firstFault?_eq (v : Value) :
    v.firstFault? fault? = (fault? v).or (v.parts.findSome? (firstFault? fault?)) := by
  rw [firstFault?, preorder_eq, List.findSome?_cons, findSome?_preorder]
  cases fault? v <;> rfl

end Value
end AssetRecords
