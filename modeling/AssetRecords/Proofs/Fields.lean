import AssetRecords.Proofs.Outcome
import AssetRecords.Proofs.Typing
/-!
# Fields — changes to the fields of a record

Trees and settings change the fields of a record one after the other, each change under the key of its field.  If the
keys differ, then what becomes of a field depends on its own change alone, in whatever order the changes come
(`foldlM_update_eq_ok_iff`).
-/
namespace AssetRecords

theorem lookup_cons_eq_ite {β : Type} (key : String) (m : String × β) (rest : List (String × β)) :
    (m :: rest).lookup key = if key = m.1 then some m.2 else rest.lookup key := by
  by_cases same : key = m.1
  · subst same
    rw [if_pos rfl, List.lookup_cons_self]
  · rw [if_neg same, List.lookup_cons, beq_false_of_ne same]

theorem lookup_eq_none_of_not_mem {β : Type} {key : String} {ms : List (String × β)} (h : key ∉ ms.map (·.1)) :
    ms.lookup key = none :=
  List.lookup_eq_none_iff.2 fun m hm => bne_iff_ne.2 fun same => h (List.mem_map.2 ⟨m, hm, same.symm⟩)

/-- What is listed under a key that no other has is found there. -/
theorem lookup_of_mem {β : Type} {m : String × β} : ∀ {ms : List (String × β)}, (ms.map (·.1)).Nodup → m ∈ ms →
    ms.lookup m.1 = some m.2
  | m' :: ms, distinct, h => by
    obtain ⟨apart, distinct⟩ := List.nodup_cons.1 distinct
    rw [lookup_cons_eq_ite]
    rcases List.mem_cons.1 h with rfl | h
    · rw [if_pos rfl]
    · rw [if_neg, lookup_of_mem distinct h]
      rintro same
      exact apart (List.mem_map.2 ⟨m, h, same⟩)

/-- The order does not show if the keys differ. -/
theorem lookup_perm {β : Type} {ms ms' : List (String × β)} (perm : ms.Perm ms') (distinct : (ms.map (·.1)).Nodup)
    (key : String) : ms.lookup key = ms'.lookup key := by
  have found : ∀ {ms ms' : List (String × β)}, ms.Perm ms' → (ms'.map (·.1)).Nodup → ∀ b, ms.lookup key = some b →
      ms'.lookup key = some b := by
    intro ms ms' perm distinct b h
    obtain ⟨before, behind, rfl, -⟩ := List.lookup_eq_some_iff.1 h
    exact lookup_of_mem distinct (perm.mem_iff.1 (List.mem_append_right _ List.mem_cons_self))
  have distinct' : (ms'.map (·.1)).Nodup := (perm.map _).nodup_iff.1 distinct
  exact Option.ext fun b => ⟨found perm distinct' b, found perm.symm distinct b⟩

theorem findSome?_congr {α β : Type} {f g : α → Option β} : ∀ {as : List α}, (∀ a ∈ as, f a = g a) →
    as.findSome? f = as.findSome? g
  | [], _ => rfl
  | a :: as, same => by
    obtain ⟨here, same⟩ := List.forall_mem_cons.1 same
    rw [List.findSome?_cons, List.findSome?_cons, here, findSome?_congr same]

section FilterMap

variable {β γ : Type} {g : γ → Option β}

/-- Of what is kept of a list no key is new. -/
theorem sublist_keys_filterMap (g : γ → Option β) (fields : List (String × γ)) :
    ((fields.filterMap fun f => (g f.2).map (f.1, ·)).map (·.1)).Sublist (fields.map (·.1)) := by
  induction fields with
  | nil => exact .slnil
  | cons f rest ih =>
    rw [List.filterMap_cons]
    cases g f.2 with
    | none => exact ih.cons _
    | some b => exact ih.cons_cons _

theorem lookup_filterMap {f : String × γ} : ∀ {fields : List (String × γ)}, (fields.map (·.1)).Nodup → f ∈ fields →
    (fields.filterMap fun f => (g f.2).map (f.1, ·)).lookup f.1 = g f.2
  | f' :: rest, distinct, h => by
    obtain ⟨apart, distinct⟩ := List.nodup_cons.1 distinct
    rw [List.filterMap_cons]
    rcases List.mem_cons.1 h with rfl | h
    · have none := lookup_eq_none_of_not_mem fun mem => apart ((sublist_keys_filterMap g rest).mem mem)
      cases kept : g f.2 with
      | none => exact none
      | some b => rw [Option.map_some, lookup_cons_eq_ite, if_pos rfl]
    · have other : f.1 ≠ f'.1 := fun same => apart (List.mem_map.2 ⟨f, h, same⟩)
      have found := lookup_filterMap distinct h
      cases g f'.2 with
      | none => exact found
      | some b => rwa [Option.map_some, lookup_cons_eq_ite, if_neg other]

end FilterMap

namespace Fields

section Updates

variable {key : String} {f g : Value → Except Error Value}

theorem update_congr : ∀ {fields : List (String × Value)}, (∀ v, find? key fields = some v → f v = g v) →
    update key f fields = update key g fields
  | [], _ => rfl
  | (k, v) :: rest, h => by
    rw [update, update]
    by_cases here : k = key
    · have same := h v (by rw [find?, lookup_cons_eq_ite, if_pos here.symm])
      rw [if_pos here, if_pos here, same]
    · rw [if_neg here, if_neg here, update_congr fun w hw => h w ?_]
      rwa [find?, lookup_cons_eq_ite, if_neg (Ne.symm here)]

/-- A change that leaves the value under its key as it is changes nothing. -/
theorem update_self : ∀ {fields : List (String × Value)}, (∀ v, find? key fields = some v → f v = .ok v) →
    update key f fields = .ok fields
  | [], _ => rfl
  | (k, v) :: rest, h => by
    rw [update]
    by_cases here : k = key
    · rw [if_pos here, h v (by rw [find?, lookup_cons_eq_ite, if_pos here.symm])]
      rfl
    · rw [if_neg here, update_self fun w hw => h w ?_]
      · rfl
      · rwa [find?, lookup_cons_eq_ite, if_neg (Ne.symm here)]

/-- A change under a key that no field has changes nothing. -/
theorem update_of_not_mem {fields : List (String × Value)} (h : key ∉ fields.map (·.1)) :
    update key f fields = .ok fields :=
  update_self fun v hv => by
    rw [find?, lookup_eq_none_of_not_mem h] at hv
    cases hv

/-- The keys stay, and so does what is found under the other ones. -/
theorem keys_of_update : ∀ {fields fields' : List (String × Value)}, update key f fields = .ok fields' →
    fields'.map (·.1) = fields.map (·.1) ∧ ∀ key', key' ≠ key → find? key' fields' = find? key' fields
  | [], _, updated => by
    cases updated
    exact ⟨rfl, fun _ _ => rfl⟩
  | (k, v) :: rest, _, updated => by
    rw [update] at updated
    by_cases here : k = key
    · rw [if_pos here] at updated
      obtain ⟨v', -, rfl⟩ := Except.map_eq_ok_iff.1 updated
      refine ⟨rfl, fun key' other => ?_⟩
      have other : key' ≠ k := fun same => other (same.trans here)
      rw [find?, find?, lookup_cons_eq_ite, lookup_cons_eq_ite, if_neg other, if_neg other]
    · rw [if_neg here] at updated
      obtain ⟨rest', behind, rfl⟩ := Except.map_eq_ok_iff.1 updated
      obtain ⟨keys, kept⟩ := keys_of_update behind
      refine ⟨by rw [List.map_cons, List.map_cons, keys], fun key' other => ?_⟩
      rw [find?, find?, lookup_cons_eq_ite, lookup_cons_eq_ite]
      exact congrArg _ (kept key' other)

/-- Two changes under one key are one change. -/
theorem update_bind (fields : List (String × Value)) :
    update key f fields >>= update key g = update key (fun v => f v >>= g) fields := by
  induction fields with
  | nil => rfl
  | cons field rest ih =>
    obtain ⟨k, v⟩ := field
    rw [update, update]
    by_cases here : k = key
    · rw [if_pos here, if_pos here]
      cases f v with
      | error e => rfl
      | ok v' =>
        show update key g ((k, v') :: rest) = _
        rw [update, if_pos here]
        rfl
    · rw [if_neg here, if_neg here, ← ih]
      cases update key f rest with
      | error e => rfl
      | ok rest' =>
        show update key g ((k, v) :: rest') = _
        rw [update, if_neg here]
        rfl

/-- A change that answers is made under its key. -/
theorem exists_update {v v' : Value} : ∀ {fields : List (String × Value)}, find? key fields = some v → f v = .ok v' →
    ∃ fields', update key f fields = .ok fields' ∧ find? key fields' = some v'
  | (k, w) :: rest, found, becomes => by
    rw [find?, lookup_cons_eq_ite] at found
    rw [update]
    by_cases here : k = key
    · rw [if_pos here.symm] at found
      cases found
      exact ⟨(k, v') :: rest, by rw [if_pos here, becomes]; rfl, by rw [find?, lookup_cons_eq_ite, if_pos here.symm]⟩
    · rw [if_neg (Ne.symm here)] at found
      obtain ⟨rest', updated, found'⟩ := exists_update found becomes
      refine ⟨(k, w) :: rest', by rw [if_neg here, updated]; rfl, ?_⟩
      rwa [find?, lookup_cons_eq_ite, if_neg (Ne.symm here)]

/-- Where a change answers as another one does, so do the fields. -/
theorem update_mono (h : ∀ v v', f v = .ok v' → g v = .ok v') : ∀ {fields fields' : List (String × Value)},
    update key f fields = .ok fields' → update key g fields = .ok fields'
  | [], _, updated => updated
  | (k, v) :: rest, fields', updated => by
    rw [update] at updated ⊢
    by_cases here : k = key
    · rw [if_pos here] at updated ⊢
      obtain ⟨v', becomes, rfl⟩ := Except.map_eq_ok_iff.1 updated
      exact Except.map_eq_ok_iff.2 ⟨v', h v v' becomes, rfl⟩
    · rw [if_neg here] at updated ⊢
      obtain ⟨rest', behind, rfl⟩ := Except.map_eq_ok_iff.1 updated
      exact Except.map_eq_ok_iff.2 ⟨rest', update_mono h behind, rfl⟩

theorem update_eq_ok_congr (h : ∀ v v', f v = .ok v' ↔ g v = .ok v') {fields fields' : List (String × Value)} :
    update key f fields = .ok fields' ↔ update key g fields = .ok fields' :=
  ⟨update_mono fun v v' => (h v v').1, update_mono fun v v' => (h v v').2⟩

/-- What holds of all values of fields holds of them after a change that keeps to it. -/
theorem forall_of_update {P : Value → Prop} (h : ∀ v v', P v → f v = .ok v' → P v') :
    ∀ {fields fields' : List (String × Value)}, (∀ m ∈ fields, P m.2) → update key f fields = .ok fields' →
      ∀ m ∈ fields', P m.2
  | [], _, _, updated => by
    cases updated
    nofun
  | (k, v) :: rest, fields', all, updated => by
    obtain ⟨first, others⟩ := List.forall_mem_cons.1 all
    rw [update] at updated
    by_cases here : k = key
    · rw [if_pos here] at updated
      obtain ⟨v', becomes, rfl⟩ := Except.map_eq_ok_iff.1 updated
      exact List.forall_mem_cons.2 ⟨h v v' first becomes, others⟩
    · rw [if_neg here] at updated
      obtain ⟨rest', behind, rfl⟩ := Except.map_eq_ok_iff.1 updated
      exact List.forall_mem_cons.2 ⟨first, forall_of_update h others behind⟩

end Updates

variable {β : Type} {decode : Value → β → Except Error Value}

/-- A field becomes what a change of its key makes of it, and stays as it is if there is none. -/
def Settles (decode : Value → β → Except Error Value) (ms : List (String × β)) (f f' : String × Value) : Prop :=
  f'.1 = f.1 ∧ match ms.lookup f.1 with
    | some b => decode f.2 b = .ok f'.2
    | none => f'.2 = f.2

theorem settles_cons_iff {m : String × β} {ms : List (String × β)} {f f' : String × Value} (other : f.1 ≠ m.1) :
    Settles decode (m :: ms) f f' ↔ Settles decode ms f f' := by
  rw [Settles, Settles, lookup_cons_eq_ite, if_neg other]

theorem settles_self {ms : List (String × β)} {f : String × Value} (h : ms.lookup f.1 = none) :
    Settles decode ms f f := by
  rw [Settles, h]
  exact ⟨rfl, rfl⟩

theorem keys_of_forall₂ {R : String × Value → String × Value → Prop} (key : ∀ f f', R f f' → f'.1 = f.1)
    {start final : List (String × Value)} (h : List.Forall₂ R start final) : final.map (·.1) = start.map (·.1) := by
  induction h with
  | nil => rfl
  | cons first _ ih => rw [List.map_cons, List.map_cons, ih, key _ _ first]

theorem keys_of_settles {ms : List (String × β)} {start final : List (String × Value)}
    (h : List.Forall₂ (Settles decode ms) start final) : final.map (·.1) = start.map (·.1) :=
  keys_of_forall₂ (fun _ _ settles => settles.1) h

/-- A change settles the field of its key and no other. -/
theorem update_of_settles {key : String} {b : β} {ms : List (String × β)} (once : ms.lookup key = none)
    {start final : List (String × Value)} (h : List.Forall₂ (Settles decode ((key, b) :: ms)) start final)
    (distinct : (start.map (·.1)).Nodup) :
    ∃ next, update key (fun v => decode v b) start = .ok next ∧ next.map (·.1) = start.map (·.1) ∧
      List.Forall₂ (Settles decode ms) next final := by
  induction h with
  | nil => exact ⟨[], rfl, rfl, .nil⟩
  | @cons f f' start final head tail ih =>
    obtain ⟨apart, distinct⟩ := List.nodup_cons.1 distinct
    rw [update]
    by_cases here : f.1 = key
    · obtain ⟨same, becomes⟩ := head
      rw [lookup_cons_eq_ite, if_pos here] at becomes
      refine ⟨(f.1, f'.2) :: start, ?_, rfl, .cons ⟨same, ?_⟩ ?_⟩
      · rw [if_pos here, becomes]
        rfl
      · show match ms.lookup f.1 with
          | some b => decode f'.2 b = .ok f'.2
          | none => f'.2 = f'.2
        rw [here, once]
      · -- no other field has this key
        refine forall₂_imp_of_mem tail fun g hg _ _ settles => (settles_cons_iff fun same => apart ?_).1 settles
        exact List.mem_map.2 ⟨g, hg, same.trans here.symm⟩
    · obtain ⟨next, updated, keys, settles⟩ := ih distinct
      refine ⟨f :: next, ?_, by rw [List.map_cons, List.map_cons, keys], .cons ((settles_cons_iff here).1 head) settles⟩
      rw [if_neg here, updated]
      rfl

theorem settles_of_update {key : String} {b : β} : ∀ {start next : List (String × Value)},
    update key (fun v => decode v b) start = .ok next → (start.map (·.1)).Nodup →
      List.Forall₂ (Settles decode [(key, b)]) start next
  | [], next, h, _ => by
    cases h
    exact .nil
  | (k, v) :: rest, next, h, distinct => by
    obtain ⟨apart, distinct⟩ := List.nodup_cons.1 distinct
    rw [update] at h
    by_cases here : k = key
    · rw [if_pos here] at h
      obtain ⟨v', becomes, rfl⟩ := Except.map_eq_ok_iff.1 h
      refine .cons ⟨rfl, ?_⟩ (List.forall₂_same.2 fun g hg => settles_self ?_)
      · rw [lookup_cons_eq_ite, if_pos here]
        exact becomes
      · rw [lookup_cons_eq_ite, if_neg, List.lookup_nil]
        rintro rfl
        exact apart (List.mem_map.2 ⟨g, hg, here.symm⟩)
    · rw [if_neg here] at h
      obtain ⟨rest', updated, rfl⟩ := Except.map_eq_ok_iff.1 h
      refine .cons (settles_self ?_) (settles_of_update updated distinct)
      rw [lookup_cons_eq_ite, if_neg here, List.lookup_nil]

theorem Settles.trans {key : String} {b : β} {ms : List (String × β)} (once : ms.lookup key = none)
    {f g h : String × Value} (first : Settles decode [(key, b)] f g) (rest : Settles decode ms g h) :
    Settles decode ((key, b) :: ms) f h := by
  obtain ⟨same, becomes⟩ := first
  obtain ⟨same', rest⟩ := rest
  rw [same] at rest same'
  refine ⟨same', ?_⟩
  rw [lookup_cons_eq_ite] at becomes ⊢
  by_cases here : f.1 = key
  · rw [here, once] at rest
    rw [if_pos here] at becomes ⊢
    show decode f.2 b = .ok h.2
    rw [rest]
    exact becomes
  · rw [if_neg here, List.lookup_nil] at becomes
    rw [if_neg here]
    rwa [becomes] at rest

theorem forall₂_trans {α : Type} {P Q R : α → α → Prop} (h : ∀ a b c, P a b → Q b c → R a c) {as bs : List α}
    (first : List.Forall₂ P as bs) : ∀ {cs : List α}, List.Forall₂ Q bs cs → List.Forall₂ R as cs := by
  induction first with
  | nil =>
    rintro _ ⟨⟩
    exact .nil
  | cons head _ ih =>
    rintro _ (_ | ⟨head', tail'⟩)
    exact .cons (h _ _ _ head head') (ih tail')

/-- Where decoding answers as another way of decoding does, so do all changes together. -/
theorem foldlM_update_mono {decode' : Value → β → Except Error Value}
    (h : ∀ v b v', decode v b = .ok v' → decode' v b = .ok v') :
    ∀ {ms : List (String × β)} {start final : List (String × Value)},
      ms.foldlM (fun fields m => update m.1 (fun v => decode v m.2) fields) start = .ok final →
        ms.foldlM (fun fields m => update m.1 (fun v => decode' v m.2) fields) start = .ok final
  | [], _, _, settled => settled
  | m :: ms, start, final, settled => by
    rw [List.foldlM_cons, Except.bind_eq_ok_iff] at settled ⊢
    obtain ⟨next, updated, settled⟩ := settled
    exact ⟨next, update_mono (fun v => h v m.2) updated, foldlM_update_mono h settled⟩

theorem forall_of_foldlM_update {P : Value → Prop} (h : ∀ v b v', P v → decode v b = .ok v' → P v') :
    ∀ {ms : List (String × β)} {start final : List (String × Value)}, (∀ f ∈ start, P f.2) →
      ms.foldlM (fun fields m => update m.1 (fun v => decode v m.2) fields) start = .ok final → ∀ f ∈ final, P f.2
  | [], _, _, all, settled => by
    cases settled
    exact all
  | m :: ms, start, final, all, settled => by
    rw [List.foldlM_cons, Except.bind_eq_ok_iff] at settled
    obtain ⟨next, updated, settled⟩ := settled
    exact forall_of_foldlM_update h (forall_of_update (fun v v' => h v m.2 v') all updated) settled

/-- **Changes settle the fields that they name, in whatever order they come.** -/
theorem foldlM_update_eq_ok_iff {final : List (String × Value)} : ∀ {ms : List (String × β)}, (ms.map (·.1)).Nodup →
    ∀ {start : List (String × Value)}, (start.map (·.1)).Nodup →
      (ms.foldlM (fun fields m => update m.1 (fun v => decode v m.2) fields) start = .ok final ↔
        List.Forall₂ (Settles decode ms) start final)
  | [], _, start, _ => by
    have same : List.Forall₂ (Settles decode []) start final ↔ start = final := by
      rw [← List.forall₂_eq_eq_eq]
      exact ⟨fun h => h.imp fun _ _ h => (Prod.ext h.1 h.2).symm, fun h => h.imp fun _ _ h => h ▸ settles_self rfl⟩
    rw [same]
    exact ⟨fun h => Except.ok.inj h, fun h => congrArg Except.ok h⟩
  | (key, b) :: ms, once, start, distinct => by
    obtain ⟨apart, once⟩ := List.nodup_cons.1 once
    have none : ms.lookup key = none := lookup_eq_none_of_not_mem apart
    rw [List.foldlM_cons, Except.bind_eq_ok_iff]
    constructor
    · rintro ⟨next, updated, rest⟩
      have first := settles_of_update updated distinct
      have rest := (foldlM_update_eq_ok_iff once (keys_of_settles first ▸ distinct)).1 rest
      have step : ∀ f g h, Settles decode [(key, b)] f g → Settles decode ms g h → Settles decode ((key, b) :: ms) f h :=
        fun _ _ _ => Settles.trans none
      exact forall₂_trans step first rest
    · intro h
      obtain ⟨next, updated, keys, settles⟩ := update_of_settles none h distinct
      exact ⟨next, updated, (foldlM_update_eq_ok_iff once (keys ▸ distinct)).2 settles⟩

/-- A change settles the field of its key and leaves all others, if no key is there twice. -/
theorem update_eq_ok_iff {key : String} {f : Value → Except Error Value} {fields fields' : List (String × Value)}
    (distinct : (fields.map (·.1)).Nodup) : update key f fields = .ok fields' ↔
      List.Forall₂ (fun m m' => m'.1 = m.1 ∧ if m.1 = key then f m.2 = .ok m'.2 else m'.2 = m.2) fields fields' := by
  have once : ([(key, f)].map (·.1)).Nodup := List.pairwise_singleton _ _
  have settled := @foldlM_update_eq_ok_iff _ (fun v f => f v) fields' [(key, f)] once _ distinct
  simp only [List.foldlM_cons, List.foldlM_nil, bind_pure] at settled
  rw [settled]
  refine forall₂_congr_iff fun m m' => ?_
  rw [Settles, lookup_cons_eq_ite]
  by_cases here : m.1 = key
  · simp only [if_pos here]
  · simp only [if_neg here, List.lookup_nil]

/-- Changes leave the keys, and what is found under keys that none of them has. -/
theorem keys_of_foldlM_update : ∀ {ms : List (String × β)} {start final : List (String × Value)},
    ms.foldlM (fun fields m => update m.1 (fun v => decode v m.2) fields) start = .ok final →
      final.map (·.1) = start.map (·.1) ∧ ∀ key, key ∉ ms.map (·.1) → find? key final = find? key start
  | [], _, _, settled => by
    cases settled
    exact ⟨rfl, fun _ _ => rfl⟩
  | m :: ms, start, final, settled => by
    rw [List.foldlM_cons, Except.bind_eq_ok_iff] at settled
    obtain ⟨next, updated, settled⟩ := settled
    obtain ⟨keys, kept⟩ := keys_of_update updated
    obtain ⟨keys', kept'⟩ := keys_of_foldlM_update settled
    refine ⟨keys'.trans keys, fun key none => ?_⟩
    rw [List.map_cons, List.mem_cons, not_or] at none
    rw [kept' key none.2, kept key none.1]

section Among

variable {key : String} {ms' : List (String × β)}

/-- Among changes one under a key that no field has does not show. -/
theorem foldlM_update_skip {b : β} : ∀ {ms : List (String × β)} {start : List (String × Value)},
    key ∉ start.map (·.1) →
      (ms ++ (key, b) :: ms').foldlM (fun fields m => update m.1 (fun v => decode v m.2) fields) start =
        (ms ++ ms').foldlM (fun fields m => update m.1 (fun v => decode v m.2) fields) start
  | [], start, unknown => by
    rw [List.nil_append, List.nil_append, List.foldlM_cons, update_of_not_mem unknown]
    rfl
  | m :: ms, start, unknown => by
    rw [List.cons_append, List.cons_append, List.foldlM_cons, List.foldlM_cons]
    cases updated : update m.1 (fun v => decode v m.2) start with
    | error e => rfl
    | ok next => exact foldlM_update_skip ((keys_of_update updated).1 ▸ unknown)

/-- Of the first change under a key counts what it makes of the value that is there from the start. -/
theorem foldlM_update_congr {v : Value} {b b' : β} (same : decode v b' = decode v b) :
    ∀ {ms : List (String × β)} {start : List (String × Value)}, find? key start = some v → key ∉ ms.map (·.1) →
      (ms ++ (key, b') :: ms').foldlM (fun fields m => update m.1 (fun v => decode v m.2) fields) start =
        (ms ++ (key, b) :: ms').foldlM (fun fields m => update m.1 (fun v => decode v m.2) fields) start
  | [], start, found, _ => by
    have updated : update key (fun v => decode v b') start = update key (fun v => decode v b) start := by
      refine update_congr fun w hw => ?_
      obtain rfl : v = w := Option.some.inj (found.symm.trans hw)
      exact same
    rw [List.nil_append, List.nil_append, List.foldlM_cons, List.foldlM_cons, updated]
  | m :: ms, start, found, once => by
    rw [List.map_cons, List.mem_cons, not_or] at once
    rw [List.cons_append, List.cons_append, List.foldlM_cons, List.foldlM_cons]
    cases updated : update m.1 (fun v => decode v m.2) start with
    | error e => rfl
    | ok next =>
      have kept := (keys_of_update updated).2 key once.1
      exact foldlM_update_congr same (kept.trans found) once.2

end Among

/-- **In whatever order changes come, their outcome is the same**, if no two of them are under one key. -/
theorem foldlM_update_perm {ms ms' : List (String × β)} {start final : List (String × Value)} (perm : ms.Perm ms')
    (once : (ms.map (·.1)).Nodup) (distinct : (start.map (·.1)).Nodup)
    (settled : ms.foldlM (fun fields m => update m.1 (fun v => decode v m.2) fields) start = .ok final) :
    ms'.foldlM (fun fields m => update m.1 (fun v => decode v m.2) fields) start = .ok final := by
  have once' : (ms'.map (·.1)).Nodup := (perm.map _).nodup_iff.1 once
  rw [foldlM_update_eq_ok_iff once' distinct]
  refine ((foldlM_update_eq_ok_iff once distinct).1 settled).imp fun f f' settles => ?_
  rwa [Settles, ← lookup_perm perm once]

/-!
## Two records of one type
-/

theorem error?_update {key : String} {f : Value → Except Error Value} (fields : List (String × Value)) :
    (update key f fields).error? = (find? key fields).bind fun v => (f v).error? := by
  induction fields with
  | nil => rfl
  | cons field rest ih =>
    rw [update, find?, lookup_cons_eq_ite]
    by_cases here : field.1 = key
    · rw [if_pos here, if_pos here.symm, Except.error?_map, Option.bind_some]
    · rw [if_neg here, if_neg (Ne.symm here), Except.error?_map, ih, find?]

/-- Of changes under different keys the first one that fails for what is there from the start says why. -/
theorem error?_foldlM_update : ∀ {ms : List (String × β)} (start : List (String × Value)), (ms.map (·.1)).Nodup →
    (ms.foldlM (fun fields m => update m.1 (fun v => decode v m.2) fields) start).error? =
      ms.findSome? fun m => (find? m.1 start).bind fun v => (decode v m.2).error?
  | [], _, _ => rfl
  | m :: ms, start, once => by
    obtain ⟨apart, once⟩ := List.nodup_cons.1 once
    rw [List.foldlM_cons, List.findSome?_cons, ← error?_update start]
    cases updated : update m.1 (fun v => decode v m.2) start with
    | error e => rfl
    | ok next =>
      -- the other changes find what they find at the start
      have kept : ∀ m' ∈ ms, find? m'.1 next = find? m'.1 start := fun m' hm' =>
        (keys_of_update updated).2 m'.1 fun same => apart (List.mem_map.2 ⟨m', hm', same⟩)
      refine (error?_foldlM_update next once).trans ?_
      exact findSome?_congr fun m' hm' => by rw [kept m' hm']

/-- Fields in step have both something under a key that is in step, or neither has anything there. -/
theorem find?_of_forall₂ {P : String × Value → String × Value → Prop} {fields fields' : List (String × Value)}
    (h : List.Forall₂ (fun f f' => f'.1 = f.1 ∧ P f f') fields fields') (key : String) :
    find? key fields = none ∧ find? key fields' = none ∨
      ∃ v v', find? key fields = some v ∧ find? key fields' = some v' ∧ P (key, v) (key, v') := by
  induction h with
  | nil => exact .inl ⟨rfl, rfl⟩
  | @cons f f' _ _ head _ ih =>
    obtain ⟨k, v⟩ := f
    obtain ⟨k', v'⟩ := f'
    obtain ⟨rfl, holds⟩ := head
    rw [find?, find?, lookup_cons_eq_ite, lookup_cons_eq_ite]
    by_cases here : key = k'
    · subst here
      rw [if_pos rfl, if_pos rfl]
      exact .inr ⟨v, v', rfl, rfl, holds⟩
    · rw [if_neg here, if_neg here]
      exact ih

/-- Two values of a field are in a relation if there is a change of its key, and the same if there is none. -/
def Shares (R : β → Value → Value → Prop) (ms : List (String × β)) (f f' : String × Value) : Prop :=
  match ms.lookup f.1 with
  | some b => R b f.2 f'.2
  | none => f.2 = f'.2

variable {R : β → Value → Value → Prop} {ms : List (String × β)} {start start' : List (String × Value)}

/-- Of two records the fields that changes name are the same afterwards if the changes make them so, and all others if
they have been the same before. -/
theorem agreeIff_foldlM_update (once : (ms.map (·.1)).Nodup) (distinct : (start.map (·.1)).Nodup)
    (each : List.Forall₂ (fun f f' => f'.1 = f.1 ∧ ∀ b, ms.lookup f.1 = some b →
      Except.AgreeIff (R b f.2 f'.2) (decode f.2 b) (decode f'.2 b)) start start') :
    Except.AgreeIff (List.Forall₂ (Shares R ms) start start')
      (ms.foldlM (fun fields m => update m.1 (fun v => decode v m.2) fields) start)
      (ms.foldlM (fun fields m => update m.1 (fun v => decode v m.2) fields) start') := by
  refine Except.agreeIff_iff.2 ⟨?_, fun final final' settled settled' => ?_⟩
  · rw [error?_foldlM_update start once, error?_foldlM_update start' once]
    refine findSome?_congr fun m hm => ?_
    rcases find?_of_forall₂ each m.1 with ⟨none, none'⟩ | ⟨v, v', found, found', agree⟩
    · rw [none, none']
    · rw [found, found', Option.bind_some, Option.bind_some]
      exact (Except.agreeIff_iff.1 (agree m.2 (lookup_of_mem once hm))).1
  · have distinct' : (start'.map (·.1)).Nodup := keys_of_forall₂ (fun _ _ agree => agree.1) each ▸ distinct
    rw [foldlM_update_eq_ok_iff once distinct] at settled
    rw [foldlM_update_eq_ok_iff once distinct'] at settled'
    clear distinct distinct'
    induction each generalizing final final' with
    | nil =>
      cases settled
      cases settled'
      exact iff_of_true rfl .nil
    | @cons f f' _ _ head _ ih =>
      cases settled with
      | @cons _ g _ _ first rest =>
        cases settled' with
        | @cons _ g' _ _ first' rest' =>
          have here : g = g' ↔ Shares R ms f f' := by
            obtain ⟨same, agree⟩ := head
            obtain ⟨key, becomes⟩ := first
            obtain ⟨key', becomes'⟩ := first'
            rw [same] at key' becomes'
            rw [Prod.ext_iff, key, key', and_iff_right rfl, Shares]
            cases change : ms.lookup f.1 with
            | none =>
              rw [change] at becomes becomes'
              rw [becomes, becomes']
            | some b =>
              rw [change] at becomes becomes'
              exact (Except.agreeIff_iff.1 (agree b change)).2 _ _ becomes becomes'
          rw [List.cons.injEq, List.forall₂_cons]
          exact and_congr here (ih _ _ rest rest')

end Fields
end AssetRecords
