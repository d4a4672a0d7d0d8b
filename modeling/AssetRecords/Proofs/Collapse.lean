import AssetRecords.Proofs.Typing
/-!
# Collapse — optionals that hold nothing to be seen

A text shows what a present optional holds, and nothing of the optional.  If what it holds looks absent, then so does
the optional: `Value.collapse` empties every optional of which that is so, from the inside out.
-/
namespace AssetRecords
namespace Value

mutual

/-- A value with every optional emptied that holds, once it is collapsed itself, what looks absent. -/
def collapse (looksAbsent : Value → Bool) : Value → Value
  | .leaf l => .leaf l
  | .enum table variant => .enum table variant
  | .record name fields => .record name (collapseFields looksAbsent fields)
  | .tuple vs => .tuple (collapseAll looksAbsent vs)
  | .numbers type ns => .numbers type ns
  | .sequence element vs => .sequence element (collapseAll looksAbsent vs)
  | .buffer b => .buffer b
  | .absent content => .absent content
  | .present content v =>
    if looksAbsent (v.collapse looksAbsent) then .absent content else .present content (v.collapse looksAbsent)

def collapseFields (looksAbsent : Value → Bool) : List (String × Value) → List (String × Value)
  | [] => []
  | (key, v) :: rest => (key, v.collapse looksAbsent) :: collapseFields looksAbsent rest

def collapseAll (looksAbsent : Value → Bool) : List Value → List Value
  | [] => []
  | v :: rest => v.collapse looksAbsent :: collapseAll looksAbsent rest

end

attribute [simp] collapse collapseFields collapseAll

variable {looksAbsent : Value → Bool}

theorem collapseAll_eq (vs : List Value) : collapseAll looksAbsent vs = vs.map (collapse looksAbsent) := by
  induction vs with
  | nil => rw [collapseAll, List.map_nil]
  | cons v rest ih => rw [collapseAll, List.map_cons, ih]

theorem collapseFields_eq (fields : List (String × Value)) :
    collapseFields looksAbsent fields = fields.map fun f => (f.1, f.2.collapse looksAbsent) := by
  induction fields with
  | nil => rw [collapseFields, List.map_nil]
  | cons f rest ih => rw [collapseFields, List.map_cons, ih]

theorem values_collapseFields (fields : List (String × Value)) :
    (collapseFields looksAbsent fields).map (·.2) = (fields.map (·.2)).map (collapse looksAbsent) := by
  rw [collapseFields_eq, List.map_map, List.map_map]
  rfl

theorem keys_collapseFields (fields : List (String × Value)) :
    (collapseFields looksAbsent fields).map (·.1) = fields.map (·.1) := by
  rw [collapseFields_eq, List.map_map]
  rfl

/-- Where there are no parts there is nothing to collapse. -/
theorem collapse_of_parts_eq_nil {v : Value} (h : v.parts = []) : v.collapse looksAbsent = v := by
  cases v with
  | record name fields =>
    obtain rfl := List.map_eq_nil_iff.1 h
    rw [collapse, collapseFields]
  | tuple vs | sequence element vs =>
    obtain rfl : vs = [] := h
    rw [collapse, collapseAll]
  | present content w => cases h
  | _ => rw [collapse]

/-- The parts that are left are collapsed parts. -/
theorem exists_of_mem_parts_collapse {p v : Value} (h : p ∈ (v.collapse looksAbsent).parts) :
    ∃ q ∈ v.parts, p = q.collapse looksAbsent := by
  cases v with
  | record name fields =>
    rw [collapse, parts, values_collapseFields] at h
    obtain ⟨q, hq, rfl⟩ := List.mem_map.1 h
    exact ⟨q, hq, rfl⟩
  | tuple vs | sequence element vs =>
    rw [collapse, parts, collapseAll_eq] at h
    obtain ⟨q, hq, rfl⟩ := List.mem_map.1 h
    exact ⟨q, hq, rfl⟩
  | present content w =>
    rw [collapse] at h
    split at h
    · cases h
    · exact ⟨w, List.mem_cons_self, List.mem_singleton.1 h⟩
  | _ =>
    rw [collapse_of_parts_eq_nil rfl] at h
    cases h

/-- What occurs in a collapsed value is what something that occurs in the value collapses to. -/
theorem exists_of_occurs_collapse {w v : Value} (h : w.Occurs (v.collapse looksAbsent)) :
    ∃ u : Value, u.Occurs v ∧ w = u.collapse looksAbsent := by
  induction v using parts_induction with
  | step v ih =>
    generalize hc : v.collapse looksAbsent = c at h
    cases h with
    | self => exact ⟨v, .self, hc.symm⟩
    | part hp occurs =>
      subst hc
      obtain ⟨q, hq, rfl⟩ := exists_of_mem_parts_collapse hp
      obtain ⟨u, inside, eq⟩ := ih q hq occurs
      exact ⟨u, .part hq inside, eq⟩

theorem eq_enum_of_collapse {v : Value} {table : EnumTable} {variant : Nat}
    (h : v.collapse looksAbsent = .enum table variant) : v = .enum table variant := by
  cases v with
  | present content w =>
    rw [collapse] at h
    split at h <;> cases h
  | record | tuple | sequence =>
    rw [collapse] at h
    cases h
  | _ => rwa [collapse_of_parts_eq_nil rfl] at h

/-- What is still present does not look absent. -/
theorem looksAbsent_of_collapse {v w : Value} {content : Shape} (h : v.collapse looksAbsent = .present content w) :
    looksAbsent w = false := by
  cases v with
  | present content' v =>
    rw [collapse] at h
    split at h
    · cases h
    · rename_i here
      cases h
      exact Bool.eq_false_iff.2 here
  | _ =>
    rw [collapse] at h
    cases h

theorem scalars_collapse (v : Value) : (v.collapse looksAbsent).scalars = v.scalars := by
  cases v with
  | present content w =>
    rw [collapse]
    split <;> rfl
  | record | tuple | sequence =>
    rw [collapse]
    rfl
  | _ => rw [collapse_of_parts_eq_nil rfl]

theorem count_collapse (v : Value) : (v.collapse looksAbsent).count = v.count := by
  cases v with
  | sequence element vs => rw [collapse, collapseAll_eq, count, count, List.length_map]
  | present content w =>
    rw [collapse]
    split <;> rfl
  | record | tuple =>
    rw [collapse]
    rfl
  | _ => rw [collapse_of_parts_eq_nil rfl]

theorem CountsWithin.collapse {v : Value} {most : Nat} (h : v.CountsWithin most) :
    (v.collapse looksAbsent).CountsWithin most := by
  intro w occurs
  obtain ⟨u, inside, rfl⟩ := exists_of_occurs_collapse occurs
  rw [count_collapse]
  exact h u inside

theorem depthOfAll_collapse_le {block : Nat} : ∀ {vs : List Value},
    (∀ v ∈ vs, (v.collapse looksAbsent).depth block ≤ v.depth block) →
    depthOfAll block (vs.map (collapse looksAbsent)) ≤ depthOfAll block vs
  | [], _ => Nat.le_refl _
  | v :: rest, h => by
    have first := h v List.mem_cons_self
    have others := depthOfAll_collapse_le fun v hv => h v (List.mem_cons_of_mem _ hv)
    rw [List.map_cons, depthOfAll, depthOfAll]
    omega

theorem depth_collapse_le (block : Nat) (v : Value) : (v.collapse looksAbsent).depth block ≤ v.depth block := by
  induction v using parts_induction with
  | step v ih =>
    cases v with
    | record name fields =>
      rw [collapse, depth, depth, depthOfFields_eq, depthOfFields_eq, values_collapseFields]
      exact depthOfAll_collapse_le ih
    | tuple vs | sequence element vs =>
      rw [collapse, depth, depth, collapseAll_eq]
      exact depthOfAll_collapse_le ih
    | present content w =>
      have inside := ih w List.mem_cons_self
      rw [collapse]
      split
      · exact Nat.zero_le _
      · exact Nat.succ_le_succ inside
    | _ => exact Nat.le_of_eq (congrArg (depth block) (collapse_of_parts_eq_nil rfl))

theorem map_eq_self_iff {α : Type} {f : α → α} {as : List α} : as.map f = as ↔ ∀ a ∈ as, f a = a := by
  have eq := List.map_eq_map_iff (f := f) (g := id) (l := as)
  rwa [List.map_id] at eq

theorem collapse_eq_self_iff_parts {v : Value} : v.collapse looksAbsent = v ↔
    (∀ p ∈ v.parts, p.collapse looksAbsent = p) ∧ ∀ content w, v = .present content w → looksAbsent w = false := by
  cases v with
  | record name fields =>
    rw [collapse, parts, collapseFields_eq, Value.record.injEq, eq_self, true_and, map_eq_self_iff, List.forall_mem_map]
    refine ⟨fun h => ⟨fun f hf => congrArg Prod.snd (h f hf), fun _ _ other => by cases other⟩, fun h f hf => ?_⟩
    rw [h.1 f hf]
  | tuple vs =>
    rw [collapse, parts, collapseAll_eq, Value.tuple.injEq, map_eq_self_iff]
    exact ⟨fun h => ⟨h, fun _ _ other => by cases other⟩, And.left⟩
  | sequence element vs =>
    rw [collapse, parts, collapseAll_eq, Value.sequence.injEq, eq_self, true_and, map_eq_self_iff]
    exact ⟨fun h => ⟨h, fun _ _ other => by cases other⟩, And.left⟩
  | present content w =>
    rw [parts, List.forall_mem_singleton]
    constructor
    · intro h
      have here := looksAbsent_of_collapse h
      rw [collapse] at h
      split at h
      · cases h
      · injection h with _ inside
        refine ⟨inside, ?_⟩
        rintro _ _ ⟨⟩
        exact here
    · rintro ⟨inside, here⟩
      rw [collapse, inside, here content w rfl, if_neg Bool.false_ne_true]
  | _ =>
    rw [collapse_of_parts_eq_nil rfl]
    exact ⟨fun _ => ⟨List.forall_mem_nil _, fun _ _ other => by cases other⟩, fun _ => rfl⟩

/-- **A value is its own collapse if nothing present in it looks absent.** -/
theorem collapse_eq_self_iff {v : Value} : v.collapse looksAbsent = v ↔
    ∀ content w, (Value.present content w).Occurs v → looksAbsent w = false := by
  constructor
  · intro h content w occurs
    induction occurs with
    | self => exact (collapse_eq_self_iff_parts.1 h).2 content w rfl
    | part hp _ ih => exact ih ((collapse_eq_self_iff_parts.1 h).1 _ hp)
  · intro h
    induction v using parts_induction with
    | step v ih =>
      refine collapse_eq_self_iff_parts.2 ⟨fun p hp => ih p hp fun content w occurs => h content w (.part hp occurs), ?_⟩
      rintro content w rfl
      exact h content w .self

end Value

open Value (collapse)

theorem Schema.hasShape_collapse {S : Schema} (looksAbsent : Value → Bool) {v : Value} {shape : Shape}
    (h : S.HasShape v shape) : S.HasShape (v.collapse looksAbsent) shape := by
  induction v using Value.parts_induction generalizing shape with
  | step v ih =>
    have all : ∀ {vs : List Value} {shapes : List Shape}, (∀ p ∈ vs, p ∈ v.parts) → List.Forall₂ S.HasShape vs shapes →
        List.Forall₂ S.HasShape (vs.map (collapse looksAbsent)) shapes := fun inside fits =>
      List.forall₂_map_left_iff.2 (forall₂_imp_of_mem fits fun p hp _ _ fit => ih p (inside p hp) fit)
    cases h with
    | @record name fields keys shapes =>
      rw [collapse]
      refine .record ?_ ?_
      · rw [Value.keys_collapseFields, keys]
      · rw [Value.values_collapseFields]
        exact all (fun _ => id) shapes
    | tuple shapes =>
      rw [collapse, Value.collapseAll_eq]
      exact .tuple (all (fun _ => id) shapes)
    | vector shapes =>
      rw [collapse, Value.collapseAll_eq]
      exact .vector (all (fun _ => id) shapes)
    | sequence shapes =>
      rw [collapse, Value.collapseAll_eq]
      refine .sequence (List.forall_mem_map.2 fun p hp => ih p hp (shapes p hp))
    | @present content w fit =>
      rw [collapse]
      split
      · exact .absent content
      · exact .present (ih w List.mem_cons_self fit)
    | leaf l => rw [collapse]; exact .leaf l
    | enum table variant initial => rw [collapse]; exact .enum table variant initial
    | numbers type ns => rw [collapse]; exact .numbers type ns
    | buffer wf => rw [collapse]; exact .buffer wf
    | absent content => rw [collapse]; exact .absent content

end AssetRecords
