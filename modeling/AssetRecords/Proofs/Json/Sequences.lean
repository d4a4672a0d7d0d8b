import AssetRecords.Proofs.Initial
import AssetRecords.Proofs.Json.Objects
import AssetRecords.Proofs.Json.Trees
/-!
# Sequences — what an array leaves of the elements that are there

An array sets how many elements a sequence has and is decoded into those, the ones that are there already as well as new
ones.  So what has been in the sequence does not show in whether the array is refused, or why, but it shows in what comes
of it: an element keeps whatever the objects of its tree do not mention (`array_replaces_iff`).  Of numbers, texts and
optionals nothing is kept.
-/
namespace AssetRecords

/-- Whatever is decoded into the value replaces it as a whole. -/
def Value.isWhole : Value → Bool
  | .record _ _ | .tuple _ | .sequence _ _ => false
  | _ => true

namespace Json

/-- Two values have in common what a tree leaves of them. -/
inductive SameRest (S : Schema) : Json → Value → Value → Prop where
  | same (j : Json) (v : Value) : SameRest S j v v
  | whole {j : Json} {v v' : Value} : v.isWhole = true → SameRest S j v v'
  | tuple {vs vs' : List Value} {js : List Json} :
    List.Forall₂ (fun p p' => SameRest S p.2 p.1 p'.1) (vs.zip js) (vs'.zip js) →
    SameRest S (.array js) (.tuple vs) (.tuple vs')
  | sequence {element : Shape} {vs vs' : List Value} {js : List Json} :
    List.Forall₂ (fun p p' => SameRest S p.2 p.1 p'.1) (targets (S.initial element) vs js)
      (targets (S.initial element) vs' js) →
    SameRest S (.array js) (.sequence element vs) (.sequence element vs')
  | record {name : String} {fields fields' : List (String × Value)} {ms : List (String × Json)} :
    (∀ f f' j, (f, f') ∈ fields.zip fields' → ms.lookup f.1 = some j → SameRest S j f.2 f'.2) →
    (∀ f f', (f, f') ∈ fields.zip fields' → ms.lookup f.1 = none → f.2 = f'.2) →
    SameRest S (.object ms) (.record name fields) (.record name fields')

section Rests

variable {S : Schema} {element : Shape} {vs vs' : List Value} {js : List Json}

theorem sameRest_tuple_iff : SameRest S (.array js) (.tuple vs) (.tuple vs') ↔
    List.Forall₂ (fun p p' => SameRest S p.2 p.1 p'.1) (vs.zip js) (vs'.zip js) := by
  constructor
  · rintro (_ | whole | same)
    · exact List.forall₂_same.2 fun p _ => .same p.2 p.1
    · cases whole
    · exact same
  · exact .tuple

theorem sameRest_sequence_iff : SameRest S (.array js) (.sequence element vs) (.sequence element vs') ↔
    List.Forall₂ (fun p p' => SameRest S p.2 p.1 p'.1) (targets (S.initial element) vs js)
      (targets (S.initial element) vs' js) := by
  constructor
  · rintro (_ | whole | _ | same)
    · exact List.forall₂_same.2 fun p _ => .same p.2 p.1
    · cases whole
    · exact same
  · exact .sequence

theorem sameRest_record_iff {name : String} {fields fields' : List (String × Value)} {ms : List (String × Json)}
    (length : fields.length = fields'.length) :
    SameRest S (.object ms) (.record name fields) (.record name fields') ↔
      List.Forall₂ (Fields.Shares (SameRest S) ms) fields fields' := by
  constructor
  · rintro (_ | whole | _ | _ | ⟨mentioned, others⟩)
    · refine List.forall₂_same.2 fun f _ => ?_
      rw [Fields.Shares]
      cases ms.lookup f.1 with
      | none => rfl
      | some j => exact .same j f.2
    · cases whole
    · refine List.forall₂_iff_zip.2 ⟨length, fun {f f'} hf => ?_⟩
      rw [Fields.Shares]
      cases change : ms.lookup f.1 with
      | none => exact others f f' hf change
      | some j => exact mentioned f f' j hf change
  · intro h
    obtain ⟨-, each⟩ := List.forall₂_iff_zip.1 h
    refine .record (fun f f' j hf change => ?_) fun f f' hf change => ?_
    · have shares := @each f f' hf
      rwa [Fields.Shares, change] at shares
    · have shares := @each f f' hf
      rwa [Fields.Shares, change] at shares

/-- Against an empty sequence only the elements count that stay. -/
theorem sameRest_nil_iff : SameRest S (.array js) (.sequence element vs) (.sequence element []) ↔
    ∀ p ∈ vs.zip js, SameRest S p.2 p.1 (S.initial element) := by
  rw [sameRest_sequence_iff]
  induction js generalizing vs with
  | nil => simp [targets_nil_right]
  | cons j js ih =>
    rw [targets_cons, targets_cons, List.forall₂_cons, List.head?_nil, List.tail_nil, ih]
    cases vs with
    | nil => simp [SameRest.same]
    | cons v vs => rw [List.zip_cons_cons, List.forall_mem_cons]; rfl

end Rests

/-- Two values are of one shape. -/
def Akin (S : Schema) (v v' : Value) : Prop := ∃ shape, S.Coherent shape ∧ S.HasShape v shape ∧ S.HasShape v' shape

section Decoding

variable {S : Schema} {L : Limits} {room : Nat} {v v' : Value} {shape : Shape} {j : Json}

/-- What is replaced as a whole is replaced by the same, whatever it is. -/
theorem decodeInto_of_isWhole (whole : v.isWhole = true) (fits : S.HasShape v shape) (fits' : S.HasShape v' shape) :
    decodeInto S L room v j = decodeInto S L room v' j := by
  cases room with
  | zero => rfl
  | succ room =>
    cases fits with
    | leaf l =>
      obtain ⟨l', rfl, same⟩ := fits'.exists_leaf
      cases l with
      | number n =>
        obtain ⟨type, bits⟩ := n
        cases l' <;> cases same
        cases j <;> rfl
      | _ =>
        cases l' <;> cases same
        cases j <;> rfl
    | record | tuple | vector | sequence => cases whole
    | absent | present => cases fits' <;> cases j <;> rfl
    | _ =>
      cases fits'
      cases j <;> rfl

theorem decodeInto_record_array {name : String} {fields : List (String × Value)} {js : List Json} :
    decodeInto S L (room + 1) (.record name fields) (.array js) =
      (L.checkCount js.length >>= fun _ => .error (.noArrayStrategy "record")) := rfl

theorem forall₂_zip {α : Type} {P : Value → Value → Prop} {R : Value × α → Value × α → Prop} {vs vs' : List Value}
    (h : List.Forall₂ P vs vs') : ∀ {as : List α}, (∀ v v' a, a ∈ as → P v v' → R (v, a) (v', a)) →
      List.Forall₂ R (vs.zip as) (vs'.zip as) := by
  induction h with
  | nil => exact fun _ => .nil
  | cons head _ ih =>
    intro as each
    cases as with
    | nil => exact .nil
    | cons a as =>
      exact .cons (each _ _ a List.mem_cons_self head) (ih fun v v' a ha => each v v' a (List.mem_cons_of_mem _ ha))

theorem forall₂_targets {P : Value → Prop} {R : Value × Json → Value × Json → Prop} {initial : Value} (start : P initial) :
    ∀ {js : List Json} {vs vs' : List Value}, (∀ v ∈ vs, P v) → (∀ v ∈ vs', P v) →
      (∀ v v' j, j ∈ js → P v → P v' → R (v, j) (v', j)) → List.Forall₂ R (targets initial vs js) (targets initial vs' js)
  | [], vs, vs', _, _, _ => by
    rw [targets_nil_right, targets_nil_right]
    exact .nil
  | j :: js, vs, vs', all, all', each => by
    have first : ∀ {vs : List Value}, (∀ v ∈ vs, P v) → P (vs.head?.getD initial) := fun {vs} all => by
      cases vs with
      | nil => exact start
      | cons v vs => exact all v List.mem_cons_self
    rw [targets_cons, targets_cons]
    refine .cons (each _ _ j List.mem_cons_self (first all) (first all')) (forall₂_targets start ?_ ?_ ?_)
    · exact fun v hv => all v (List.mem_of_mem_tail hv)
    · exact fun v hv => all' v (List.mem_of_mem_tail hv)
    · exact fun v v' j hj => each v v' j (List.mem_cons_of_mem _ hj)

/-- With room for so many levels, two values of one shape become the same where they have the rest in common. -/
def Agree (S : Schema) (L : Limits) (room : Nat) : Prop := ∀ (v v' : Value) (j : Json), Akin S v v' → j.WellFormed →
  Except.AgreeIff (SameRest S j v v') (decodeInto S L room v j) (decodeInto S L room v' j)

/-!
The parts are decoded with one level less.
-/

theorem Agree.tuple (agree : Agree S L room) {vs vs' : List Value} (akin : List.Forall₂ (Akin S) vs vs')
    (well : j.WellFormed) : Except.AgreeIff (SameRest S j (.tuple vs) (.tuple vs'))
      (decodeInto S L (room + 1) (.tuple vs) j) (decodeInto S L (room + 1) (.tuple vs') j) := by
  cases well with
  | @array js well =>
    rw [decodeInto, decodeInto, akin.length_eq]
    split
    · refine (Except.AgreeIff.map (fun _ _ => Value.tuple.inj) (Except.agreeIff_mapM ?_)).congr sameRest_tuple_iff.symm
      exact forall₂_zip akin fun v v' j hj akin => agree v v' j akin (well j hj)
    · exact .fails _
  | _ => exact .fails _

theorem Agree.sequence (agree : Agree S L room) {element : Shape} (coherent : S.Coherent element) {vs vs' : List Value}
    (fits : ∀ v ∈ vs, S.HasShape v element) (fits' : ∀ v ∈ vs', S.HasShape v element) (well : j.WellFormed) :
    Except.AgreeIff (SameRest S j (.sequence element vs) (.sequence element vs'))
      (decodeInto S L (room + 1) (.sequence element vs) j) (decodeInto S L (room + 1) (.sequence element vs') j) := by
  cases well with
  | @array js well =>
    rw [decodeInto_array, decodeInto_array]
    cases L.checkCount js.length with
    | error e => exact .fails e
    | ok =>
      refine ((Except.agreeIff_mapM ?_).map fun _ _ same => (Value.sequence.inj same).2).congr sameRest_sequence_iff.symm
      refine forall₂_targets (Schema.hasShape_initial element coherent) fits fits' fun v v' j hj fits fits' => ?_
      exact agree v v' j ⟨element, coherent, fits, fits'⟩ (well j hj)
  | _ => exact .fails _

theorem Agree.record (agree : Agree S L room) {name : String} (coherent : S.Coherent (.record name))
    {fields fields' : List (String × Value)} (fits : S.HasShape (.record name fields) (.record name))
    (fits' : S.HasShape (.record name fields') (.record name)) (well : j.WellFormed) :
    Except.AgreeIff (SameRest S j (.record name fields) (.record name fields'))
      (decodeInto S L (room + 1) (.record name fields) j) (decodeInto S L (room + 1) (.record name fields') j) := by
  have common := forall₂_of_common fits.fields fits'.fields
  cases well with
  | @object ms once well =>
    rw [decodeInto_object, decodeInto_object]
    have distinct : (fields.map (·.1)).Nodup := fits.keys ▸ coherent.distinct name .self
    refine ((Fields.agreeIff_foldlM_update once distinct ?_).map fun _ _ same =>
      (Value.record.inj same).2).congr (sameRest_record_iff common.length_eq).symm
    refine common.imp fun f f' => ?_
    rintro ⟨type, htype, ⟨key, fits⟩, key', fits'⟩
    refine ⟨key'.trans key.symm, fun j change => ?_⟩
    obtain ⟨before, behind, rfl, -⟩ := List.lookup_eq_some_iff.1 change
    have well := well (f.1, j) (List.mem_append_right _ List.mem_cons_self)
    exact agree f.2 f'.2 j ⟨type.shape, coherent.sub (.field htype .self), fits, fits'⟩ well
  | array =>
    rw [decodeInto_record_array, decodeInto_record_array]
    cases L.checkCount _ <;> exact .fails _
  | _ => exact .fails _

/-- **Two values of one shape refuse a tree for the same reason, and if they take it they become the same exactly if they
have in common what it leaves of them.** -/
theorem agree (S : Schema) (L : Limits) (room : Nat) : Agree S L room := by
  induction room with
  | zero => exact fun _ _ _ _ _ => .fails _
  | succ room ih =>
    rintro v v' j ⟨shape, coherent, fits, fits'⟩ well
    cases whole : v.isWhole with
    | true =>
      rw [decodeInto_of_isWhole whole fits fits']
      exact Except.agreeIff_self (.whole whole) _
    | false =>
      cases fits with
      | record keys shapes =>
        obtain ⟨fields', rfl⟩ := fits'.eq_record
        exact ih.record coherent (.record keys shapes) fits' well
      | tuple shapes =>
        cases fits' with
        | tuple shapes' =>
          refine ih.tuple ((forall₂_of_common shapes shapes').imp fun v v' => ?_) well
          rintro ⟨e, he, fits, fits'⟩
          exact ⟨e, coherent.sub (.element he .self), fits, fits'⟩
      | vector shapes =>
        cases fits' with
        | vector shapes' =>
          refine ih.tuple ((forall₂_of_common shapes shapes').imp fun v v' => ?_) well
          rintro ⟨e, he, fits, fits'⟩
          obtain ⟨x, -, rfl⟩ := List.mem_map.1 he
          exact ⟨_, (Schema.plain_leaf _).coherent, fits, fits'⟩
      | sequence all =>
        cases fits' with
        | sequence all' => exact ih.sequence (coherent.sub (.sequence .self)) all all' well
      | _ => cases whole

variable {element : Shape} {vs : List Value} {js : List Json}

/-- **What has been in a sequence does not show in whether an array is refused, and in what comes of the array only so
far as elements that stay differ from new ones in what their trees leave of them.** -/
theorem array_replaces_iff (coherent : S.Coherent element) (fits : ∀ v ∈ vs, S.HasShape v element)
    (well : ∀ j ∈ js, j.WellFormed) :
    (decodeInto S L room (.sequence element vs) (.array js)).error? =
        (decodeInto S L room (.sequence element []) (.array js)).error? ∧
      ∀ w, decodeInto S L room (.sequence element []) (.array js) = .ok w →
        (decodeInto S L room (.sequence element vs) (.array js) = .ok w ↔
          ∀ p ∈ vs.zip js, SameRest S p.2 p.1 (S.initial element)) := by
  cases room with
  | zero => exact ⟨rfl, fun w made => by cases made⟩
  | succ room =>
    have agrees := (agree S L room).sequence coherent fits (List.forall_mem_nil _) (.array well)
    refine ⟨(Except.agreeIff_iff.1 agrees).1, fun w made => ?_⟩
    rw [agrees.eq_ok_iff made, sameRest_nil_iff]

/-- Elements that are replaced each as a whole are replaced all. -/
theorem array_replaces (coherent : S.Coherent element) (fits : ∀ v ∈ vs, S.HasShape v element)
    (whole : ∀ v ∈ vs, v.isWhole = true) (well : ∀ j ∈ js, j.WellFormed) :
    decodeInto S L room (.sequence element vs) (.array js) = decodeInto S L room (.sequence element []) (.array js) := by
  cases room with
  | zero => rfl
  | succ room =>
    have agrees := (agree S L room).sequence coherent fits (List.forall_mem_nil _) (.array well)
    exact agrees.eq (sameRest_nil_iff.2 fun p hp => .whole (whole p.1 (List.of_mem_zip hp).1))

end Decoding

/-- A crate that starts with a box in it. -/
def crates : Schema :=
  ⟨shelves.records ++ [⟨"Crate", [⟨"boxes", .sequence (.record "Box"), .sequence (.record "Box") [box 5#8]⟩]⟩]⟩

/-- The box keeps its size where its object does not mention it; a new box has none. -/
example : decode crates {} (.record "Crate") (.object [("boxes", .array [.object [], .object []])]) =
    .ok (.record "Crate" [("boxes", .sequence (.record "Box") [box 5#8, box 0#8])]) := rfl

end Json
end AssetRecords
