import AssetRecords.Proofs.Fields
import AssetRecords.Proofs.Json.Reader
import Mathlib.Data.List.Induction
import Mathlib.Data.String.Basic
/-!
# Trees — what every tree is that is read

The numbers of a tree fit into 64 bits or are finite doubles, and the members of an object have different keys
(`wellFormed_of_parse?`).
-/
namespace AssetRecords

namespace Json

/-!
## Members in their order
-/

theorem lookup_insertMember (key key' : String) (j : Json) :
    ∀ ms, (insertMember key j ms).lookup key' = if key' = key then some j else ms.lookup key'
  | [] => lookup_cons_eq_ite _ _ _
  | (k, v) :: rest => by
    rw [insertMember]
    by_cases before : key < k
    · rw [if_pos before, lookup_cons_eq_ite]
    · rw [if_neg before]
      by_cases here : key = k
      · subst here
        rw [if_pos rfl, lookup_cons_eq_ite, lookup_cons_eq_ite]
        by_cases same : key' = key
        · rw [if_pos same, if_pos same]
        · rw [if_neg same, if_neg same, if_neg same]
      · rw [if_neg here, lookup_cons_eq_ite, lookup_cons_eq_ite, lookup_insertMember key key' j rest]
        by_cases same : key' = key
        · subst same
          rw [if_neg here, if_pos rfl, if_pos rfl]
        · rw [if_neg same, if_neg same]

theorem mem_of_mem_insertMember {key : String} {j : Json} {m : String × Json} : ∀ {ms : List (String × Json)},
    m ∈ insertMember key j ms → m = (key, j) ∨ m ∈ ms
  | [], h => .inl (List.mem_singleton.1 h)
  | (k', v) :: rest, h => by
    rw [insertMember] at h
    split at h
    · exact List.mem_cons.1 h
    split at h
    · exact (List.mem_cons.1 h).imp_right (List.mem_cons_of_mem _)
    · rcases List.mem_cons.1 h with rfl | h
      · exact .inr List.mem_cons_self
      · exact (mem_of_mem_insertMember h).imp_right (List.mem_cons_of_mem _)

theorem mem_keys_insertMember {key k : String} {j : Json} {ms : List (String × Json)}
    (h : k ∈ (insertMember key j ms).map (·.1)) : k = key ∨ k ∈ ms.map (·.1) := by
  obtain ⟨m, hm, rfl⟩ := List.mem_map.1 h
  exact (mem_of_mem_insertMember hm).imp (congrArg Prod.fst) (List.mem_map_of_mem)

theorem pairwise_insertMember {key : String} {j : Json} : ∀ {ms : List (String × Json)},
    (ms.map (·.1)).Pairwise (· < ·) → ((insertMember key j ms).map (·.1)).Pairwise (· < ·)
  | [], _ => List.pairwise_singleton _ _
  | (k, v) :: rest, h => by
    obtain ⟨least, tail⟩ := List.pairwise_cons.1 h
    rw [insertMember]
    split
    · rename_i before
      refine List.pairwise_cons.2 ⟨fun k' hk' => ?_, h⟩
      rcases List.mem_cons.1 hk' with rfl | hk'
      · exact before
      · exact lt_trans before (least k' hk')
    · rename_i notBefore
      split
      · rename_i here
        subst here
        exact h
      · rename_i other
        have after : k < key := lt_of_le_of_ne (not_lt.1 notBefore) (Ne.symm other)
        refine List.pairwise_cons.2 ⟨fun k' hk' => ?_, pairwise_insertMember tail⟩
        rcases mem_keys_insertMember hk' with rfl | hk'
        · exact after
        · exact least k' hk'

theorem sorted_append_singleton (ms : List (String × Json)) (m : String × Json) :
    sorted (ms ++ [m]) = insertMember m.1 m.2 (sorted ms) := by
  rw [sorted, List.foldl_append]
  rfl

theorem mem_of_mem_sorted {m : String × Json} {ms : List (String × Json)} (h : m ∈ sorted ms) : m ∈ ms := by
  induction ms using List.reverseRecOn with
  | nil => exact h
  | append_singleton ms last ih =>
    rw [sorted_append_singleton] at h
    rcases mem_of_mem_insertMember h with rfl | h
    · exact List.mem_append_right _ (List.mem_singleton_self _)
    · exact List.mem_append_left _ (ih h)

theorem nodup_keys_sorted (ms : List (String × Json)) : ((sorted ms).map (·.1)).Nodup := by
  have ascending : ((sorted ms).map (·.1)).Pairwise (· < ·) := by
    induction ms using List.reverseRecOn with
    | nil => exact .nil
    | append_singleton ms m ih =>
      rw [sorted_append_singleton]
      exact pairwise_insertMember ih
  exact ascending.imp ne_of_lt

/-- A member is found under its key, if no other has it. -/
theorem lookup_sorted {ms : List (String × Json)} (distinct : (ms.map (·.1)).Nodup) (key : String) :
    (sorted ms).lookup key = ms.lookup key := by
  induction ms using List.reverseRecOn with
  | nil => rfl
  | append_singleton ms m ih =>
    rw [List.map_append, List.nodup_append] at distinct
    obtain ⟨distinct, -, apart⟩ := distinct
    rw [sorted_append_singleton, lookup_insertMember, List.lookup_append, lookup_cons_eq_ite, ih distinct]
    by_cases same : key = m.1
    · have none : ms.lookup key = none := lookup_eq_none_of_not_mem fun mem =>
        apart key mem m.1 (List.mem_singleton_self _) same
      rw [if_pos same, if_pos same, none, Option.none_or]
    · rw [if_neg same, if_neg same, List.lookup_nil, Option.or_none]

/-!
## Trees
-/

/-- The trees of texts. -/
inductive WellFormed : Json → Prop where
  | null : WellFormed .null
  | bool (b : Bool) : WellFormed (.bool b)
  | number {n : Number} : n.isJson = true → WellFormed (.number n)
  | text (s : String) : WellFormed (.text s)
  | array {js : List Json} : (∀ j ∈ js, WellFormed j) → WellFormed (.array js)
  | object {ms : List (String × Json)} : (ms.map (·.1)).Nodup → (∀ m ∈ ms, WellFormed m.2) → WellFormed (.object ms)

section Items

variable {α : Type} {P : α → Prop} {item : Reader α} {closer : Char} {as : List α} {rest : List Char}

/-- What every item is that is read, each of a list of items is. -/
theorem forall_of_items? (each : ∀ {cs a rest}, item cs = some (a, rest) → P a) : ∀ {fuel : Nat} {cs : List Char}
    {as : List α} {rest : List Char}, items? item closer fuel cs = some (as, rest) → ∀ a ∈ as, P a
  | 0, _, _, _, h => by cases h
  | fuel + 1, cs, as, rest, h => by
    rw [items?, Option.bind_eq_bind, Option.bind_eq_some_iff] at h
    obtain ⟨⟨first, behind⟩, taken, h⟩ := h
    simp only at h
    split at h
    · rw [Option.bind_eq_bind, Option.bind_eq_some_iff] at h
      obtain ⟨⟨others, left⟩, more, ⟨⟩⟩ := h
      exact List.forall_mem_cons.2 ⟨each taken, forall_of_items? each more⟩
    · split at h
      · cases h
        exact List.forall_mem_singleton.2 (each taken)
      · cases h
    · cases h

theorem forall_of_list? (each : ∀ {cs a rest}, item cs = some (a, rest) → P a) {cs : List Char}
    (h : list? item closer cs = some (as, rest)) : ∀ a ∈ as, P a := by
  unfold list? at h
  split at h
  · split at h
    · cases h
      nofun
    · exact forall_of_items? each h
  · cases h

end Items

theorem member?_eq_some {value : Reader Json} {cs rest : List Char} {m : String × Json}
    (h : member? value cs = some (m, rest)) : ∃ behind, value behind = some (m.2, rest) := by
  rw [member?, Option.bind_eq_bind, Option.bind_eq_some_iff] at h
  obtain ⟨⟨key, behind⟩, -, h⟩ := h
  simp only at h
  split at h
  · rw [Option.bind_eq_bind, Option.bind_eq_some_iff] at h
    obtain ⟨⟨v, left⟩, taken, ⟨⟩⟩ := h
    exact ⟨_, taken⟩
  · cases h

section Parsing

variable {number : List Char → Option Number}

theorem wellFormed_of_value? (told : ∀ {t n}, number t = some n → n.isJson = true) {room : Nat} :
    ∀ {cs rest : List Char} {j : Json}, value? number room cs = some (j, rest) → j.WellFormed := by
  induction room using Nat.strong_induction_on with
  | h room ih =>
    intro cs rest j h
    unfold value? at h
    split at h
    · obtain ⟨_, -, ⟨⟩⟩ := Option.map_eq_some_iff.1 h
      exact .null
    · obtain ⟨_, -, ⟨⟩⟩ := Option.map_eq_some_iff.1 h
      exact .bool true
    · obtain ⟨_, -, ⟨⟩⟩ := Option.map_eq_some_iff.1 h
      exact .bool false
    · obtain ⟨_, -, ⟨⟩⟩ := Option.map_eq_some_iff.1 h
      exact .text _
    · split at h
      · cases h
      · obtain ⟨r, elements, ⟨⟩⟩ := Option.map_eq_some_iff.1 h
        exact .array (forall_of_list? (ih _ (Nat.lt_succ_self _)) elements)
    · split at h
      · cases h
      · obtain ⟨r, members, ⟨⟩⟩ := Option.map_eq_some_iff.1 h
        have each : ∀ m ∈ r.1, m.2.WellFormed := by
          refine forall_of_list? (fun taken => ?_) members
          obtain ⟨behind, taken⟩ := member?_eq_some taken
          exact ih _ (Nat.lt_succ_self _) taken
        exact .object (nodup_keys_sorted r.1) fun m hm => each m (mem_of_mem_sorted hm)
    · obtain ⟨r, taken, ⟨⟩⟩ := Option.map_eq_some_iff.1 h
      obtain ⟨n, read, rfl⟩ := Option.map_eq_some_iff.1 taken
      exact .number (told read)

/-- **Every tree that is read is well-formed**, if the numbers are that are read. -/
theorem wellFormed_of_parseWith? (told : ∀ {t n}, number t = some n → n.isJson = true) {cs : List Char} {j : Json}
    (h : parseWith? number cs = some j) : j.WellFormed := by
  rw [parseWith?, Option.bind_eq_bind, Option.bind_eq_some_iff] at h
  obtain ⟨⟨tree, rest⟩, taken, h⟩ := h
  simp only at h
  split at h
  · cases h
    exact wellFormed_of_value? told taken
  · cases h

end Parsing

theorem wellFormed_of_parse? {cs : List Char} {j : Json} (h : parse? cs = some j) : j.WellFormed :=
  wellFormed_of_parseWith? isJson_of_readNumber? h

end Json
end AssetRecords
