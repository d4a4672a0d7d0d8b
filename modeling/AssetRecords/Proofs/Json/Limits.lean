import AssetRecords.Proofs.Allowance
import AssetRecords.Proofs.Fields
import AssetRecords.Proofs.Json.Decoding
/-!
# Limits — the decoder of trees keeps to its limits and does nothing else with them

Limits that allow more change nothing about what is decoded (`decodeInto_mono`).  What is decoded has no more elements
anywhere than the limits allow, if the decoder puts nothing in of its own that has: it starts from what the shape starts
with, and fills optionals and sequences with what their contents start with (`Schema.Reaches`).
-/
namespace AssetRecords

/-- The shape of what a reader may put into a value. -/
def Value.filler? : Value → Option Shape
  | .absent content | .present content _ | .sequence content _ => some content
  | _ => none

theorem Value.filler?_of_content? {v : Value} {content : Shape} (h : v.content? = some content) :
    v.filler? = some content := by
  cases v <;> cases h <;> rfl

namespace Schema

/-- A value is found in another one or in what that may be filled with. -/
inductive Reaches (S : Schema) (w : Value) : Value → Prop where
  | self : Reaches S w w
  | part {p v : Value} : p ∈ v.parts → Reaches S w p → Reaches S w v
  | filler {v : Value} {content : Shape} : v.filler? = some content → Reaches S w (S.initial content) → Reaches S w v

/-- Neither a value nor what it may be filled with has more than so many elements anywhere. -/
def StartsWithin (S : Schema) (most : Nat) (v : Value) : Prop := ∀ w : Value, S.Reaches w v → w.count ≤ most

variable {S : Schema} {most : Nat} {v : Value}

theorem StartsWithin.part {p : Value} (h : S.StartsWithin most v) (hp : p ∈ v.parts) : S.StartsWithin most p :=
  fun w reached => h w (.part hp reached)

theorem StartsWithin.filler {content : Shape} (h : S.StartsWithin most v) (filler : v.filler? = some content) :
    S.StartsWithin most (S.initial content) := fun w reached => h w (.filler filler reached)

theorem startsWithin_of_parts (count : v.count ≤ most) (parts : ∀ p ∈ v.parts, S.StartsWithin most p)
    (filler : ∀ content, v.filler? = some content → S.StartsWithin most (S.initial content)) :
    S.StartsWithin most v := by
  intro w reached
  cases reached with
  | self => exact count
  | part hp reached => exact parts _ hp w reached
  | filler hv reached => exact filler _ hv w reached

theorem StartsWithin.countsWithin (h : S.StartsWithin most v) : v.CountsWithin most := by
  intro w occurs
  have reached : S.Reaches w v := by
    induction occurs with
    | self => exact .self
    | part hp _ ih => exact .part hp (ih (h.part hp))
  exact h w reached

theorem StartsWithin.mono {more : Nat} (h : S.StartsWithin most v) (le : most ≤ more) : S.StartsWithin more v :=
  fun w reached => Nat.le_trans (h w reached) le

end Schema

namespace Json

variable {S : Schema} {L L' : Limits}

theorem Decodes.mono {most most' : Nat} {decode decode' : Value → Json → Except Error Value} {v w : Value} {j : Json}
    (le : most ≤ most') (parts : ∀ v j w, decode v j = .ok w → decode' v j = .ok w) (h : Decodes S most decode v j w) :
    Decodes S most' decode' v j w := by
  cases h with
  | clear optional => exact .clear optional
  | fill optional null hw => exact .fill optional null (parts _ _ _ hw)
  | tuple same hws => exact .tuple same (Except.mapM_mono (fun p _ => parts p.1 p.2) hws)
  | numbers few hns => exact .numbers (Nat.le_trans few le) hns
  | buffer few hb => exact .buffer (Nat.le_trans few le) hb
  | sequence few hws => exact .sequence (Nat.le_trans few le) (Except.mapM_mono (fun p _ => parts p.1 p.2) hws)
  | enum hnew => exact .enum hnew
  | record hfinal => exact .record (Fields.foldlM_update_mono parts hfinal)
  | leaf hnew => exact .leaf hnew

theorem decodeInto_mono (le : L ≤ L') : ∀ {room room' : Nat}, room ≤ room' → ∀ v j w,
    decodeInto S L room v j = .ok w → decodeInto S L' room' v j = .ok w
  | 0, _, _, _, _, _, h => nomatch h
  | _ + 1, 0, more, _, _, _, _ => absurd more (Nat.not_succ_le_zero _)
  | _ + 1, _ + 1, more, _, _, _, h => decodeInto_eq_ok_iff.2
    ((decodeInto_eq_ok_iff.1 h).mono le.2 (decodeInto_mono le (Nat.le_of_succ_le_succ more)))

theorem length_targets (initial : Value) : ∀ (js : List Json) (vs : List Value), (targets initial vs js).length = js.length
  | [], vs => by rw [targets_nil_right, List.length_nil, List.length_nil]
  | j :: js, vs => by rw [targets_cons, List.length_cons, length_targets initial js, List.length_cons]

/-- Elements are decoded into those that are there or into new ones. -/
theorem mem_targets {initial : Value} {p : Value × Json} : ∀ {js : List Json} {vs : List Value},
    p ∈ targets initial vs js → p.1 ∈ vs ∨ p.1 = initial
  | [], vs, h => by
    rw [targets_nil_right] at h
    cases h
  | j :: js, vs, h => by
    rw [targets_cons] at h
    rcases List.mem_cons.1 h with rfl | h
    · cases vs with
      | nil => exact .inr rfl
      | cons v vs => exact .inl List.mem_cons_self
    · exact (mem_targets h).imp_left List.mem_of_mem_tail

theorem startsWithin_of_decodes {most : Nat} {decode : Value → Json → Except Error Value} {v w : Value} {j : Json}
    (parts : ∀ v j w, S.StartsWithin most v → decode v j = .ok w → S.StartsWithin most w)
    (start : S.StartsWithin most v) (h : Decodes S most decode v j w) : S.StartsWithin most w := by
  -- each part is decoded into one that starts within the bound
  have run : ∀ {ps : List (Value × Json)} {ws : List Value}, (∀ p ∈ ps, S.StartsWithin most p.1) →
      ps.mapM (fun p => decode p.1 p.2) = .ok ws → ∀ w ∈ ws, S.StartsWithin most w := by
    intro ps ws starts hws w hw
    obtain ⟨p, hp, becomes⟩ := exists_of_mem_forall₂ (Except.forall₂_of_mapM_eq_ok hws) hw
    exact parts p.1 p.2 w (starts p hp) becomes
  cases h with
  | @clear _ content optional =>
    refine Schema.startsWithin_of_parts (Nat.zero_le _) nofun ?_
    rintro _ ⟨⟩
    exact start.filler (Value.filler?_of_content? optional)
  | @fill _ w content j optional null hw =>
    have filler := start.filler (Value.filler?_of_content? optional)
    refine Schema.startsWithin_of_parts (Nat.zero_le _) (List.forall_mem_singleton.2 ?_) ?_
    · exact parts _ _ _ filler hw
    · rintro _ ⟨⟩
      exact filler
  | tuple same hws =>
    refine Schema.startsWithin_of_parts (Nat.zero_le _) (run (fun p hp => ?_) hws) nofun
    exact start.part (List.of_mem_zip hp).1
  | @numbers type ms ns js few hns =>
    refine Schema.startsWithin_of_parts ?_ nofun nofun
    show ns.length ≤ most
    rwa [← (Except.forall₂_of_mapM_eq_ok hns).length_eq]
  | @buffer _ b js few hb =>
    refine Schema.startsWithin_of_parts ?_ nofun nofun
    obtain ⟨type, -, h⟩ := Except.bind_eq_ok_iff.1 hb
    obtain ⟨ns, hns, h⟩ := Except.bind_eq_ok_iff.1 h
    show b.length ≤ most
    rwa [(Buffer.exists_of_ofNumbers h).2.1, ← (Except.forall₂_of_mapM_eq_ok hns).length_eq]
  | @sequence element vs ws js few hws =>
    refine Schema.startsWithin_of_parts ?_ (run (fun p hp => ?_) hws) ?_
    · show ws.length ≤ most
      rwa [← (Except.forall₂_of_mapM_eq_ok hws).length_eq, length_targets]
    · rcases mem_targets hp with here | fresh
      · exact start.part here
      · rw [fresh]
        exact start.filler rfl
    · rintro _ ⟨⟩
      exact start.filler rfl
  | enum hnew => exact Schema.startsWithin_of_parts (Nat.zero_le _) nofun nofun
  | record hfinal =>
    refine Schema.startsWithin_of_parts (Nat.zero_le _) (List.forall_mem_map.2 ?_) nofun
    refine Fields.forall_of_foldlM_update (fun v j w => parts v j w) (fun f hf => ?_) hfinal
    exact start.part (List.mem_map_of_mem hf)
  | leaf hnew => exact Schema.startsWithin_of_parts (Nat.zero_le _) nofun nofun

/-- What is decoded into a value that starts within the limits is within them. -/
theorem startsWithin_of_decodeInto : ∀ {room : Nat} (v : Value) (j : Json) (w : Value),
    S.StartsWithin L.maxElements v → decodeInto S L room v j = .ok w → S.StartsWithin L.maxElements w
  | 0, _, _, _, _, h => nomatch h
  | _ + 1, _, _, _, start, h => startsWithin_of_decodes startsWithin_of_decodeInto start (decodeInto_eq_ok_iff.1 h)

variable {shape : Shape} {tree : Json} {v : Value}

theorem decode_mono (le : L ≤ L') (h : decode S L shape tree = .ok v) : decode S L' shape tree = .ok v :=
  decodeInto_mono le (Nat.succ_le_succ le.1) _ _ _ h

theorem countsWithin_of_decode (start : S.StartsWithin 0 (S.initial shape)) (h : decode S L shape tree = .ok v) :
    v.CountsWithin L.maxElements :=
  (startsWithin_of_decodeInto _ _ _ (start.mono (Nat.zero_le _)) h).countsWithin

end Json
end AssetRecords
