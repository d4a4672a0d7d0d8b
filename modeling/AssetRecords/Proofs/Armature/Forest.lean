import AssetRecords.Proofs.Armature.Chains
import Mathlib.Logic.Relation
/-!
# Forest — the hierarchy of the joints of an armature

What the recursion over chains reads is a forest in preorder (`forest_rootChains`): each joint is followed by the trees
of its children.  From that shape come the laws of a hierarchy that is told by the index of each joint's parent alone,
and with them those of every armature that is read (`isForest_of_read`).
-/
namespace AssetRecords
namespace Armature

/-- So many trees in preorder under one parent, which stand from an index on; their roots are at a depth. -/
inductive Forest : (depth : Nat) → (parent : Option Nat) → (start count : Nat) → List Visit → Prop where
  | nil {depth : Nat} {parent : Option Nat} {start : Nat} : Forest depth parent start 0 []
  | cons {depth start count : Nat} {parent : Option Nat} {v : Visit} {below rest : List Visit} :
    v.joint.parent = parent → v.depth = depth →
    Forest (depth + 1) (some start) (start + 1) v.joint.childCount.toNat below →
    Forest depth parent (start + 1 + below.length) count rest →
    Forest depth parent start (count + 1) (v :: (below ++ rest))

section Walks

variable {data : Bytes}

theorem forest_times {walk : Nat → Cursor → Walk} {depth : Nat} {parent : Option Nat} {place : Cursor}
    (forward : Walk.Forward walk)
    (each : ∀ index c, place.pos ≤ c.pos → (walk index c).outcome = .ok () →
      ∃ v below, (walk index c).visits = v :: below ∧ v.joint.parent = parent ∧ v.depth = depth ∧
        Forest (depth + 1) (some index) (index + 1) v.joint.childCount.toNat below) :
    ∀ (count index : Nat) (c : Cursor), place.pos ≤ c.pos → (Walk.times walk count index c).outcome = .ok () →
      Forest depth parent index count (Walk.times walk count index c).visits
  | 0, _, _, _, _ => .nil
  | count + 1, index, c, later, done => by
    rw [Walk.times, Walk.andThen] at done ⊢
    cases first : (walk index c).outcome with
    | error e => rw [first] at done; cases first.symm.trans done
    | ok _ =>
      rw [first] at done
      obtain ⟨v, below, visits, hparent, hdepth, trees⟩ := each index c later first
      have rest := forest_times forward each count (index + (walk index c).visits.length) (walk index c).stop
        (Nat.le_trans later (forward index c first)) done
      have length : index + (walk index c).visits.length = index + 1 + below.length := by
        rw [visits, List.length_cons]
        omega
      rw [length] at rest
      simp only [length]
      rw [visits, List.cons_append]
      exact .cons hparent hdepth trees rest

/-- **A chain that is read to its end is a tree in preorder.** -/
theorem tree_chain (depth : Nat) (parent : Option Nat) (index : Nat) (c : Cursor)
    (done : (chain data depth parent index c).outcome = .ok ()) :
    ∃ v below, (chain data depth parent index c).visits = v :: below ∧ v.joint.parent = parent ∧ v.depth = depth ∧
      Forest (depth + 1) (some index) (index + 1) v.joint.childCount.toNat below := by
  induction depth, parent, index, c using chain_induction data with
  | step depth parent index c ih =>
    rw [chain_eq] at done ⊢
    rcases h : readJoint data parent c with ⟨e | joint, c'⟩
    · rw [h] at done
      cases done
    · rw [h] at done
      refine ⟨_, _, rfl, (progress_of_readJoint h).2.2, rfl, ?_⟩
      exact forest_times (forward_chain data _ _) (fun index' c'' later => ih joint c' h index' c'' later) _ _ c'
        (Nat.le_refl _) done

/-- The chains of roots are a forest. -/
theorem forest_rootChains {roots : Nat} {start : Cursor} (done : (rootChains data roots start).outcome = .ok ()) :
    Forest 1 none 0 roots (rootChains data roots start).visits :=
  forest_times (forward_chain data 1 none) (fun index c _ => tree_chain 1 none index c) roots 0 start (Nat.le_refl _)
    done

end Walks

namespace Forest

variable {depth start count : Nat} {parent : Option Nat} {visits : List Visit}

/-- A joint of a forest is a root of it or has its parent in it. -/
theorem parent_cases (h : Forest depth parent start count visits) {u : Visit} (hu : u ∈ visits) :
    u.joint.parent = parent ∨ ∃ p, u.joint.parent = some p ∧ start ≤ p ∧ p < start + visits.length := by
  induction h with
  | nil => cases hu
  | @cons depth start count parent v below rest hparent hdepth _ _ ihBelow ihRest =>
    simp only [List.length_cons, List.length_append]
    rcases List.mem_cons.1 hu with rfl | hu
    · exact .inl hparent
    rcases List.mem_append.1 hu with hu | hu
    · rcases ihBelow hu with root | ⟨p, hp, low, high⟩
      · exact .inr ⟨start, root, by omega, by omega⟩
      · exact .inr ⟨p, hp, by omega, by omega⟩
    · rcases ihRest hu with root | ⟨p, hp, low, high⟩
      · exact .inl root
      · exact .inr ⟨p, hp, by omega, by omega⟩

/-- The roots of a forest are as many as it has trees. -/
theorem countP_parent (h : Forest depth parent start count visits) (above : ∀ p, parent = some p → p < start) :
    visits.countP (·.joint.parent == parent) = count := by
  induction h with
  | nil => rfl
  | @cons depth start count parent v below rest hparent hdepth trees more ihBelow ihRest =>
    have none : below.countP (·.joint.parent == parent) = 0 := by
      refine List.countP_eq_zero.2 fun u hu same => ?_
      have same := eq_of_beq same
      rcases trees.parent_cases hu with root | ⟨p, hp, low, high⟩
      · have := above start (same.symm.trans root)
        omega
      · have := above p (same.symm.trans hp)
        omega
    rw [List.countP_cons_of_pos (by rw [hparent]; exact beq_self_eq_true _), List.countP_append, none, Nat.zero_add,
      ihRest fun p hp => Nat.lt_of_lt_of_le (above p hp) (by omega)]

/-- What stands behind a joint begins with the trees of its children, and no other joint has a parent among these or
in the joint. -/
theorem split (h : Forest depth parent start count visits) (above : ∀ p, parent = some p → p < start) :
    ∀ {before rest : List Visit} {v : Visit}, visits = before ++ v :: rest →
      ∃ below after, rest = below ++ after ∧
        Forest (v.depth + 1) (some (start + before.length)) (start + before.length + 1) v.joint.childCount.toNat below ∧
        ∀ u ∈ before ++ v :: after, ∀ p, u.joint.parent = some p →
          p < start + before.length ∨ start + before.length + below.length < p := by
  induction h with
  | nil =>
    intro before rest v cut
    exact absurd cut (by simp)
  | @cons depth start count parent v' below' rest' hparent hdepth trees more ihBelow ihRest =>
    intro before rest v cut
    have outside : ∀ u ∈ v' :: rest', ∀ p, u.joint.parent = some p → p < start ∨ start + below'.length < p := by
      intro u hu p hp
      rcases List.mem_cons.1 hu with rfl | hu
      · exact .inl (above p (hparent.symm.trans hp))
      rcases more.parent_cases hu with root | ⟨q, hq, low, -⟩
      · exact .inl (above p (root.symm.trans hp))
      · cases hq.symm.trans hp
        exact .inr (by omega)
    have inside : ∀ u ∈ below', ∀ p, u.joint.parent = some p → start ≤ p ∧ p ≤ start + below'.length := by
      intro u hu p hp
      rcases trees.parent_cases hu with root | ⟨q, hq, low, high⟩
      · cases root.symm.trans hp
        omega
      · cases hq.symm.trans hp
        omega
    cases before with
    | nil =>
      obtain ⟨rfl, rfl⟩ := List.cons.inj cut
      exact ⟨below', rest', rfl, by rwa [hdepth], outside⟩
    | cons u before =>
      obtain ⟨rfl, cut'⟩ := List.cons.inj cut
      have shift : start + (v' :: before).length = start + 1 + before.length := by rw [List.length_cons]; omega
      rw [shift]
      have later : ∀ middle, before = below' ++ middle → rest' = middle ++ v :: rest →
          ∃ below after, rest = below ++ after ∧
            Forest (v.depth + 1) (some (start + 1 + before.length)) (start + 1 + before.length + 1)
              v.joint.childCount.toNat below ∧
            ∀ u ∈ v' :: before ++ v :: after, ∀ p, u.joint.parent = some p →
              p < start + 1 + before.length ∨ start + 1 + before.length + below.length < p := by
        rintro middle rfl hrest
        obtain ⟨below, after, rfl, tree, others⟩ := ihRest (fun p hp => by have := above p hp; omega) hrest
        rw [Nat.add_assoc (start + 1), ← List.length_append] at tree others
        refine ⟨below, after, rfl, tree, fun u hu p hp => ?_⟩
        rw [List.cons_append, List.append_assoc, List.mem_cons, List.mem_append] at hu
        rw [List.length_append]
        rcases hu with rfl | hu | hu
        · have := above p (hparent.symm.trans hp)
          omega
        · have := (inside u hu p hp).2
          omega
        · have := others u hu p hp
          rwa [List.length_append] at this
      rcases List.append_eq_append_iff.1 cut' with ⟨middle, hbefore, hrest⟩ | ⟨middle, hbelow, hrest⟩
      · exact later middle hbefore hrest
      cases middle with
      | nil => exact later [] (by simpa using hbelow.symm) (by simpa using hrest.symm)
      | cons w middle =>
        -- the joint is among the children of the first one
        obtain ⟨rfl, rfl⟩ := List.cons.inj hrest
        obtain ⟨below, after, rfl, tree, others⟩ :=
          ihBelow (fun p hp => by cases hp; exact Nat.lt_succ_self _) hbelow
        refine ⟨below, after ++ rest', List.append_assoc _ _ _, tree, fun u hu p hp => ?_⟩
        rw [List.cons_append, List.mem_cons, ← List.cons_append, ← List.append_assoc, List.mem_append] at hu
        rcases hu with rfl | hu | hu
        · have := above p (hparent.symm.trans hp)
          omega
        · exact others u hu p hp
        · have := outside u (List.mem_cons_of_mem _ hu) p hp
          rw [hbelow, List.length_append, List.length_cons, List.length_append] at this
          omega

/-- A joint that is no root of a forest stands behind its parent and a level below it. -/
theorem getElem?_cases (h : Forest depth parent start count visits) :
    ∀ {i : Nat} {v : Visit}, visits[i]? = some v → v.joint.parent = parent ∧ v.depth = depth ∨
      ∃ k u, v.joint.parent = some (start + k) ∧ k < i ∧ visits[k]? = some u ∧ v.depth = u.depth + 1 := by
  induction h with
  | nil => intro i v hv; cases hv
  | @cons depth start count parent first below rest hparent hdepth _ _ ihBelow ihRest =>
    intro i v hv
    cases i with
    | zero =>
      cases hv
      exact .inl ⟨hparent, hdepth⟩
    | succ i =>
      rw [List.getElem?_cons_succ] at hv
      by_cases near : i < below.length
      · rw [List.getElem?_append_left near] at hv
        rcases ihBelow hv with ⟨root, level⟩ | ⟨k, u, hp, before, hu, level⟩
        · exact .inr ⟨0, first, root, Nat.succ_pos i, rfl, by rw [level, hdepth]⟩
        · refine .inr ⟨k + 1, u, by rw [hp, Nat.add_assoc, Nat.add_comm 1], by omega, ?_, level⟩
          rwa [List.getElem?_cons_succ, List.getElem?_append_left (by omega)]
      · rw [List.getElem?_append_right (by omega)] at hv
        rcases ihRest hv with root | ⟨k, u, hp, before, hu, level⟩
        · exact .inl root
        · refine .inr ⟨k + below.length + 1, u, by rw [hp]; congr 1; omega, by omega, ?_, level⟩
          rwa [List.getElem?_cons_succ, List.getElem?_append_right (by omega), Nat.add_sub_cancel]

end Forest

/-!
## Armatures
-/

/-- One joint is the parent of another, both by their indices. -/
def IsParent (a : Armature) (p i : Nat) : Prop := ∃ j, a.joints[i]? = some j ∧ j.parent = some p

/-- A joint is a child of the other one, or a child of a child and so on. -/
def Descends (a : Armature) (i k : Nat) : Prop := Relation.TransGen a.IsParent i k

/-- The joints are a forest in preorder, of so many roots and with no chain of more than so many edges. -/
structure IsForest (a : Armature) (roots maxDepth : Nat) : Prop where
  roots : a.joints.countP (·.parent.isNone) = roots
  parent_lt : ∀ p i, a.IsParent p i → p < i
  children : ∀ i j, a.joints[i]? = some j → (a.children i).length = j.childCount.toNat
  contiguous : ∀ i < a.joints.length, ∃ last < a.joints.length, ∀ k, a.Descends i k ↔ i < k ∧ k ≤ last
  chain_le : ∀ (first : Nat) (path : List Nat), (first :: path).IsChain a.IsParent → path.length ≤ maxDepth

theorem length_children (a : Armature) (i : Nat) : (a.children i).length = a.joints.countP (·.parent == some i) := by
  rw [children, List.length_map, ← List.countP_eq_length_filter]
  have zipped : ∀ (joints : List Joint) (start : Nat),
      (joints.zipIdx start).countP (·.1.parent == some i) = joints.countP (·.parent == some i) := by
    intro joints
    induction joints with
    | nil => intro start; rfl
    | cons j rest ih => intro start; rw [List.zipIdx_cons, List.countP_cons, List.countP_cons, ih]
  exact zipped a.joints 0

section OfVisits

variable {a : Armature} {visits : List Visit} {roots maxDepth : Nat}

theorem isParent_iff (hj : a.joints = visits.map (·.joint)) {p i : Nat} :
    a.IsParent p i ↔ ∃ v, visits[i]? = some v ∧ v.joint.parent = some p := by
  unfold IsParent
  rw [hj]
  constructor
  · rintro ⟨j, hv, hp⟩
    rw [List.getElem?_map, Option.map_eq_some_iff] at hv
    obtain ⟨v, hv, rfl⟩ := hv
    exact ⟨v, hv, hp⟩
  · rintro ⟨v, hv, hp⟩
    exact ⟨v.joint, by rw [List.getElem?_map, hv]; rfl, hp⟩

theorem countP_joints (hj : a.joints = visits.map (·.joint)) (parent : Option Nat) :
    a.joints.countP (·.parent == parent) = visits.countP (·.joint.parent == parent) := by
  rw [hj, List.countP_map]
  rfl

theorem noParent_below (p : Nat) (h : (none : Option Nat) = some p) : p < 0 := nomatch h

/-- The children of a joint are as many as it says. -/
theorem countP_children (h : Forest 1 none 0 roots visits) {i : Nat} {v : Visit} (hv : visits[i]? = some v) :
    visits.countP (·.joint.parent == some i) = v.joint.childCount.toNat := by
  obtain ⟨inside, hv⟩ := List.getElem?_eq_some_iff.1 hv
  have cut : visits = visits.take i ++ v :: visits.drop (i + 1) := by
    rw [← hv, List.getElem_cons_drop, List.take_append_drop]
  obtain ⟨below, after, hrest, tree, others⟩ := h.split noParent_below cut
  have hi : (visits.take i).length = i := by rw [List.length_take]; omega
  rw [hi, Nat.zero_add] at tree others
  have none : ∀ u ∈ visits.take i ++ v :: after, ¬((u.joint.parent == some i) = true) := by
    intro u hu same
    have := others u hu i (eq_of_beq same)
    omega
  have first : (visits.take i ++ v :: after).countP (·.joint.parent == some i) = 0 := List.countP_eq_zero.2 none
  rw [List.countP_append, List.countP_cons] at first
  have mine := tree.countP_parent (fun p hp => by cases hp; exact Nat.lt_succ_self _)
  rw [cut, hrest, List.countP_append, List.countP_cons, List.countP_append, mine]
  omega

/-- The joints between a joint and the last one of its trees are those with a parent from the joint on up to there. -/
theorem exists_block (h : Forest 1 none 0 roots visits) {i : Nat} (inside : i < visits.length) :
    ∃ last < visits.length, i ≤ last ∧ ∀ k u, visits[k]? = some u →
      (i < k ∧ k ≤ last ↔ ∃ p, u.joint.parent = some p ∧ i ≤ p ∧ p ≤ last) := by
  have cut : visits = visits.take i ++ visits[i] :: visits.drop (i + 1) := by
    rw [List.getElem_cons_drop, List.take_append_drop]
  obtain ⟨below, after, hrest, tree, others⟩ := h.split noParent_below cut
  have hi : (visits.take i).length = i := by rw [List.length_take]; omega
  rw [hi, Nat.zero_add] at tree others
  have total : visits.length = i + (1 + (below.length + after.length)) := by
    have := congrArg List.length cut
    rw [hrest, List.length_append, hi, List.length_cons, List.length_append] at this
    omega
  refine ⟨i + below.length, by omega, by omega, fun k u hu => ⟨fun ⟨low, high⟩ => ?_, fun ⟨p, hp, low, high⟩ => ?_⟩⟩
  · have mem : u ∈ below := by
      rw [cut, hrest, List.getElem?_append_right (by omega), hi] at hu
      obtain ⟨m, hm⟩ : ∃ m, k - i = m + 1 := ⟨k - i - 1, by omega⟩
      rw [hm, List.getElem?_cons_succ, List.getElem?_append_left (by omega)] at hu
      exact List.mem_of_getElem? hu
    rcases tree.parent_cases mem with root | ⟨p, hp, low', high'⟩
    · exact ⟨i, root, Nat.le_refl _, by omega⟩
    · exact ⟨p, hp, by omega, by omega⟩
  · refine Decidable.byContradiction fun outside => ?_
    have mem : u ∈ visits.take i ++ visits[i] :: after := by
      rw [List.mem_append, List.mem_cons]
      rw [cut, hrest] at hu
      rcases Nat.lt_trichotomy k i with early | rfl | late
      · rw [List.getElem?_append_left (by omega)] at hu
        exact .inl (List.mem_of_getElem? hu)
      · rw [List.getElem?_append_right (by omega), hi, Nat.sub_self] at hu
        cases hu
        exact .inr (.inl rfl)
      · obtain ⟨m, hm⟩ : ∃ m, k - i = m + 1 := ⟨k - i - 1, by omega⟩
        rw [List.getElem?_append_right (by omega), hi, hm, List.getElem?_cons_succ,
          List.getElem?_append_right (by omega)] at hu
        exact .inr (.inr (List.mem_of_getElem? hu))
    have := others u mem p hp
    omega

/-- The descendants of a joint are a block of joints right behind it. -/
theorem descends_iff {i last : Nat} (low : i ≤ last) (later : ∀ p k, a.IsParent p k → p < k)
    (parents : ∀ k < a.joints.length, i < k ∧ k ≤ last ↔ ∃ p, a.IsParent p k ∧ i ≤ p ∧ p ≤ last)
    (inside : last < a.joints.length) (k : Nat) : a.Descends i k ↔ i < k ∧ k ≤ last := by
  have isJoint : ∀ p k, a.IsParent p k → k < a.joints.length := by
    rintro p k ⟨j, hj, -⟩
    exact (List.getElem?_eq_some_iff.1 hj).1
  constructor
  · intro h
    induction h with
    | single h => exact (parents _ (isJoint _ _ h)).2 ⟨i, h, Nat.le_refl _, low⟩
    | tail _ h ih => exact (parents _ (isJoint _ _ h)).2 ⟨_, h, Nat.le_of_lt ih.1, ih.2⟩
  · induction k using Nat.strongRecOn with
    | ind k ih =>
      intro h
      obtain ⟨p, hp, low, high⟩ := (parents k (by omega)).1 h
      rcases Nat.eq_or_lt_of_le low with rfl | low
      · exact .single hp
      · exact .tail (ih p (later p k hp) ⟨low, high⟩) hp

/-- A joint that is a parent has children, and its child stands a level below it. -/
theorem parent_of_isParent (hj : a.joints = visits.map (·.joint)) (h : Forest 1 none 0 roots visits) {p i : Nat}
    (hp : a.IsParent p i) : ∃ u v, visits[p]? = some u ∧ visits[i]? = some v ∧ p < i ∧ v.depth = u.depth + 1 ∧
      u.joint.childCount ≠ 0 := by
  obtain ⟨v, hv, hp⟩ := (isParent_iff hj).1 hp
  rcases h.getElem?_cases hv with ⟨root, -⟩ | ⟨k, u, hk, before, hu, level⟩
  · cases root.symm.trans hp
  · rw [Nat.zero_add] at hk
    cases hk.symm.trans hp
    refine ⟨u, v, hu, hv, before, level, fun none => ?_⟩
    have counted := countP_children h hu
    rw [none] at counted
    exact List.countP_eq_zero.1 counted v (List.mem_of_getElem? hv) (by rw [hp]; exact beq_self_eq_true _)

theorem Forest.depth_pos (h : Forest 1 none 0 roots visits) {i : Nat} {v : Visit} (hv : visits[i]? = some v) :
    0 < v.depth := by
  rcases h.getElem?_cases hv with ⟨-, level⟩ | ⟨_, u, -, -, -, level⟩
  · omega
  · omega

/-- A chain goes a level down with each edge, and at its last edge there is still a joint with children. -/
theorem depth_add_le (hj : a.joints = visits.map (·.joint)) (h : Forest 1 none 0 roots visits)
    (shallow : ∀ v ∈ visits, v.joint.childCount ≠ 0 → v.depth ≤ maxDepth) :
    ∀ (path : List Nat) (first second : Nat) {u : Visit}, visits[first]? = some u →
      (first :: second :: path).IsChain a.IsParent → u.depth + path.length ≤ maxDepth
  | [], first, second, u, hu, chain => by
    obtain ⟨u', v, hu', -, -, -, children⟩ := parent_of_isParent hj h (List.isChain_cons_cons.1 chain).1
    cases hu.symm.trans hu'
    exact shallow u (List.mem_of_getElem? hu) children
  | third :: path, first, second, u, hu, chain => by
    obtain ⟨edge, chain⟩ := List.isChain_cons_cons.1 chain
    obtain ⟨u', v, hu', hv, -, level, -⟩ := parent_of_isParent hj h edge
    cases hu.symm.trans hu'
    have rest := depth_add_le hj h shallow path second third hv chain
    rw [List.length_cons]
    omega

theorem isForest_of_forest (hj : a.joints = visits.map (·.joint)) (h : Forest 1 none 0 roots visits)
    (shallow : ∀ v ∈ visits, v.joint.childCount ≠ 0 → v.depth ≤ maxDepth) : a.IsForest roots maxDepth where
  roots := by
    have same : ∀ o : Option Nat, o.isNone = (o == none) := by rintro (_ | _) <;> rfl
    simp only [same]
    rw [countP_joints hj, h.countP_parent noParent_below]
  parent_lt := by
    intro p i hp
    obtain ⟨u, v, -, -, before, -⟩ := parent_of_isParent hj h hp
    exact before
  children := by
    intro i j h'
    rw [hj, List.getElem?_map, Option.map_eq_some_iff] at h'
    obtain ⟨v, hv, rfl⟩ := h'
    rw [length_children, countP_joints hj, countP_children h hv]
  contiguous := by
    intro i inside
    have length : a.joints.length = visits.length := by rw [hj, List.length_map]
    rw [length] at inside ⊢
    obtain ⟨last, hlast, low, block⟩ := exists_block h inside
    refine ⟨last, hlast, descends_iff low ?_ (fun k hk => ?_) (length ▸ hlast)⟩
    · intro p k hp
      obtain ⟨u, v, -, -, before, -⟩ := parent_of_isParent hj h hp
      exact before
    · rw [length] at hk
      rw [block k visits[k] (List.getElem?_eq_getElem hk)]
      simp only [isParent_iff hj, List.getElem?_eq_getElem hk, Option.some.injEq, exists_eq_left']
  chain_le := by
    intro first path chain
    cases path with
    | nil => exact Nat.zero_le _
    | cons second path =>
      obtain ⟨u, v, hu, -⟩ := parent_of_isParent hj h (List.isChain_cons_cons.1 chain).1
      have deepest := depth_add_le hj h shallow path first second hu chain
      have := h.depth_pos hu
      rw [List.length_cons]
      omega

end OfVisits

/-- What a file says first of an armature: its name, the number of its joints and that of its roots. -/
def readFront (data : Bytes) : Reading (String × Nat × UInt16) := do
  let name ← Cursor.string16 data
  let declared := (← Cursor.u16 data).toNat
  let rootCount ← Cursor.u16 data
  return (name, declared, rootCount)

/-- **Every armature that is read is a forest in preorder**, of as many joints and roots as its file declares, and no
chain of its joints has more edges than the limits admit. -/
theorem isForest_of_read {L : Limits} {content : Content} {a : Armature} (h : read L content = .ok a) :
    (∃ c, readFront content.data {} = (.ok (a.name, a.joints.length, a.rootCount), c)) ∧
      a.IsForest a.rootCount.toNat L.maxDepth := by
  have h' : ∃ c, readData L content.data {} = (.ok a, c) := by
    unfold read Asset.readContent at h
    rcases hr : readData L content.data {} with ⟨e | b, c⟩
    · rw [hr] at h
      cases h
    · rw [hr] at h
      cases h
      exact ⟨c, rfl⟩
  obtain ⟨c, h'⟩ := h'
  obtain ⟨name, c₁, hname, h'⟩ := Reading.bind_eq_ok_iff.1 h'
  obtain ⟨declared, c₂, hdeclared, h'⟩ := Reading.bind_eq_ok_iff.1 h'
  obtain ⟨rootCount, c₃, hroots, h'⟩ := Reading.bind_eq_ok_iff.1 h'
  obtain ⟨joints, c₄, hjoints, h'⟩ := Reading.bind_eq_ok_iff.1 h'
  obtain ⟨actionCount, c₅, -, h'⟩ := Reading.bind_eq_ok_iff.1 h'
  obtain ⟨actions, c₆, -, h'⟩ := Reading.bind_eq_ok_iff.1 h'
  obtain ⟨rfl, -⟩ := Reading.pure_eq_ok_iff.1 h'
  obtain ⟨whole, -, rfl, all, shallow⟩ := readChains_eq_ok_iff.1 hjoints
  refine ⟨⟨c₃, ?_⟩, isForest_of_forest rfl (forest_rootChains whole) shallow⟩
  have front : readFront content.data {} = (.ok (name, declared.toNat, rootCount), c₃) :=
    Reading.bind_eq_ok_iff.2 ⟨name, c₁, hname, Reading.bind_eq_ok_iff.2 ⟨declared, c₂, hdeclared,
      Reading.bind_eq_ok_iff.2 ⟨rootCount, c₃, hroots, rfl⟩⟩⟩
  rwa [← all] at front

/-- A file of a joint and its two children, the first of which has a child itself. -/
def specimenFile : Content where
  path := "rig.arm"
  data :=
    let joint (children : UInt8) : Bytes := [1, 0, 0x6a] ++ List.replicate 128 0 ++ [children, 0]
    [0, 0, 4, 0, 1, 0] ++ joint 2 ++ joint 1 ++ joint 0 ++ joint 0 ++ [0, 0]

theorem isForest_specimen :
    ∃ a, read {} specimenFile = .ok a ∧ a.joints.length = 4 ∧ a.IsForest a.rootCount.toNat 256 := by
  have h : ((read {} specimenFile).toOption.map fun a => a.joints.length) = some 4 := by
    decide +kernel
  obtain ⟨a, ha, hlength⟩ := Option.map_eq_some_iff.1 h
  cases hread : read {} specimenFile with
  | error e => rw [hread] at ha; cases ha
  | ok b =>
    rw [hread] at ha
    cases ha
    exact ⟨a, rfl, hlength, (isForest_of_read hread).2⟩

end Armature
end AssetRecords
