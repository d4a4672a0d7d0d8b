import AssetRecords.Proofs.Settings.Outline
import AssetRecords.Proofs.Settings.RoundTrip
/-!
# LastLine — the last line of a key counts
-/
namespace AssetRecords
namespace Settings

variable {S : Schema}

/-!
## Texts for one leaf
-/

/-- A leaf after texts have been assigned to it one after the other: each of them spells a value of its, and the last
one stays. -/
def Takes (ts : List (List Char)) (old new : Value) : Prop :=
  (∀ t ∈ ts, ∃ v, parse old.shape t = .ok v) ∧
    match ts.getLast? with
    | some t => parse old.shape t = .ok new
    | none => new = old

section Takes

variable {ts : List (List Char)} {old new mid : Value} {t : List Char}

theorem takes_nil_iff : Takes [] old new ↔ new = old := and_iff_right (List.forall_mem_nil _)

/-- What is read for a shape is read over for the same shape. -/
theorem parse_of_parse (h : parse old.shape t = .ok mid) : parse mid.shape = parse old.shape :=
  funext (parse_shape (hasShape_parse h : Schema.HasShape {} mid old.shape))

theorem takes_cons_iff : Takes (t :: ts) old new ↔ ∃ mid, parse old.shape t = .ok mid ∧ Takes ts mid new := by
  have through {mid : Value} (h : parse old.shape t = .ok mid) : Takes (t :: ts) old new ↔ Takes ts mid new := by
    have first : ∃ v, parse old.shape t = .ok v := ⟨mid, h⟩
    rw [Takes, Takes, List.forall_mem_cons, and_iff_right first, parse_of_parse h]
    refine and_congr_right' ?_
    cases ts with
    | nil =>
      show parse old.shape t = .ok new ↔ new = mid
      rw [h, Except.ok.injEq, eq_comm]
    | cons t' ts => rw [List.getLast?_cons_cons, List.getLast?_cons]
  constructor
  · intro h
    obtain ⟨mid, first⟩ := h.1 t List.mem_cons_self
    exact ⟨mid, first, (through first).1 h⟩
  · rintro ⟨mid, first, h⟩
    exact (through first).2 h

/-- What is read from a text is no record and no optional of one. -/
theorem record?_of_parse {shape : Shape} (h : parse shape t = .ok mid) : shape.record? = none := by
  cases shape with
  | record name => cases h
  | optional content =>
    cases content with
    | record name => cases h
    | _ => rfl
  | _ => rfl

theorem openBlock?_eq_none {v : Value} {shape : Shape} (fits : S.HasShape v shape) (leaf : shape.record? = none) :
    openBlock? S v = none := by
  rw [← Option.not_isSome_iff_eq_none, isSome_openBlock? fits, leaf]
  exact Bool.false_ne_true

theorem openBlock?_of_parse (h : parse old.shape t = .ok mid) : openBlock? S mid = none :=
  openBlock?_eq_none (hasShape_parse h) (record?_of_parse h)

/-- **A leaf of the root takes the texts in front of the first header.** -/
theorem follow_eq_ok_iff_takes {key : String} : ∀ {ls : List (List Char)} {current : Option String} {v w : Value},
    openBlock? S v = none → (follow S key current ls v = .ok w ↔ Takes (texts none key current ls) v w)
  | [], current, v, w, _ => by
    rw [follow, texts, takes_nil_iff, Except.ok.injEq, eq_comm]
  | line :: ls, current, v, w, closed => by
    rw [follow, texts]
    cases classify line with
    | nothing | fault why => exact follow_eq_ok_iff_takes closed
    | header name =>
      have same : opened S v = v := by rw [opened, closed, Option.getD_none]
      simp only [Line.step, same, ite_self]
      exact follow_eq_ok_iff_takes closed
    | entry k text =>
      cases current with
      | none =>
        by_cases here : k = key
        · simp only [Line.textFor, Line.step, here, and_self, if_true, List.singleton_append, takes_cons_iff,
            Except.bind_eq_ok_iff]
          exact exists_congr fun u => and_congr_right fun h => follow_eq_ok_iff_takes (openBlock?_of_parse h)
        · simp only [Line.textFor, Line.step, here, and_false, if_false]
          exact follow_eq_ok_iff_takes closed
      | some name =>
        simp only [Line.textFor, Line.step, updateBlock_of_openBlock?_eq_none closed, ite_self, reduceCtorEq, false_and,
          if_false]
        exact follow_eq_ok_iff_takes closed

end Takes

/-!
## Texts for a section
-/

/-- A value that has other fields where it is or holds a record. -/
def withBlock (block : List (String × Value)) : Value → Value
  | .record name _ => .record name block
  | .present content (.record name _) => .present content (.record name block)
  | v => v

section Blocks

variable {v w : Value} {block block' : List (String × Value)}

theorem block?_withBlock (inside : block? v = some block) : block? (withBlock block' v) = some block' := by
  cases v with
  | record name fields => rfl
  | present content w => cases w <;> first | rfl | cases inside
  | _ => cases inside

theorem withBlock_withBlock (v : Value) : withBlock block' (withBlock block v) = withBlock block' v := by
  cases v with
  | present content w => cases w <;> rfl
  | _ => rfl

theorem withBlock_self (inside : block? v = some block) : withBlock block v = v := by
  cases v with
  | record name fields =>
    cases inside
    rfl
  | present content w =>
    cases w with
    | record name fields =>
      cases inside
      rfl
    | _ => cases inside
  | _ => cases inside

theorem shape_withBlock (v : Value) : (withBlock block v).shape = v.shape := by
  cases v with
  | present content w => cases w <;> rfl
  | _ => rfl

theorem shape_opened (v : Value) : (opened S v).shape = v.shape := by
  unfold opened openBlock?
  split
  · rfl
  · split <;> rfl
  · rfl
  · rfl

theorem openBlock?_withBlock (block : List (String × Value)) (h : openBlock? S v = some v) :
    openBlock? S (withBlock block v) = some (withBlock block v) := by
  cases v with
  | record name fields => rfl
  | absent content =>
    rw [openBlock?] at h
    split at h <;> cases h
  | present content w =>
    cases w with
    | record name fields => rfl
    | _ => cases h
  | _ => cases h

theorem updateBlock_eq_ok_iff {change : List (String × Value) → Except Error (List (String × Value))}
    (inside : block? v = some block) :
    updateBlock change v = .ok w ↔ ∃ block', change block = .ok block' ∧ withBlock block' v = w := by
  rw [updateBlock_eq inside, Except.bind_eq_ok_iff]
  refine exists_congr fun block' => and_congr_right' ?_
  cases v with
  | record name fields => exact (Except.ok.injEq ..).to_iff
  | present content w =>
    cases w with
    | record name fields => exact (Except.ok.injEq ..).to_iff
    | _ => cases inside
  | _ => cases inside

/-- A leaf of a section after the texts for its key. -/
def Filled (ts : String → List (List Char)) (g g' : String × Value) : Prop := g'.1 = g.1 ∧ Takes (ts g.1) g.2 g'.2

/-- A value after the texts for the keys of the record that it is or holds. -/
def Becomes (ts : String → List (List Char)) (v w : Value) : Prop :=
  match block? v with
  | some block => ∃ block', List.Forall₂ (Filled ts) block block' ∧ withBlock block' v = w
  | none => w = v

theorem becomes_iff {ts : String → List (List Char)} (inside : block? v = some block) :
    Becomes ts v w ↔ ∃ block', List.Forall₂ (Filled ts) block block' ∧ withBlock block' v = w := by
  rw [Becomes, inside]

theorem forall₂_filled_nil_iff : List.Forall₂ (Filled fun _ => []) block block' ↔ block = block' := by
  rw [← List.forall₂_eq_eq_eq]
  refine forall₂_congr_iff fun g g' => ?_
  rw [Filled, takes_nil_iff, eq_comm (a := g'.1), eq_comm (a := g'.2), ← Prod.ext_iff]

theorem forall₂_filled_congr {ts ts' : String → List (List Char)} (same : ∀ g ∈ block, ts g.1 = ts' g.1)
    (filled : List.Forall₂ (Filled ts) block block') : List.Forall₂ (Filled ts') block block' :=
  forall₂_imp_of_mem filled fun g hg _ _ h => ⟨h.1, same g hg ▸ h.2⟩

theorem becomes_nil_iff : Becomes (fun _ => []) v w ↔ w = v := by
  cases inside : block? v with
  | none => rw [Becomes, inside]
  | some block =>
    simp only [becomes_iff inside, forall₂_filled_nil_iff, exists_eq_left', withBlock_self inside]
    exact eq_comm

/-- The first text is assigned, and the others follow. -/
theorem forall₂_filled_cons_iff {ts : String → List (List Char)} {key : String} {t : List Char}
    (distinct : (block.map (·.1)).Nodup) :
    List.Forall₂ (Filled fun k => (if key = k then [t] else []) ++ ts k) block block' ↔
      ∃ mid, setText key t block = .ok mid ∧ List.Forall₂ (Filled ts) mid block' := by
  have both (g g' : String × Value) : Filled (fun k => (if key = k then [t] else []) ++ ts k) g g' ↔
      ∃ m : String × Value, (m.1 = g.1 ∧ if g.1 = key then parse g.2.shape t = .ok m.2 else m.2 = g.2) ∧
        Filled ts m g' := by
    rw [Filled]
    by_cases here : g.1 = key
    · simp only [if_pos here, if_pos here.symm, List.singleton_append, takes_cons_iff]
      constructor
      · rintro ⟨same, mid, first, rest⟩
        exact ⟨(g.1, mid), ⟨rfl, first⟩, same, rest⟩
      · rintro ⟨m, ⟨same, first⟩, same', rest⟩
        exact ⟨same'.trans same, m.2, first, same ▸ rest⟩
    · simp only [if_neg here, if_neg (Ne.symm here), List.nil_append]
      constructor
      · rintro ⟨same, rest⟩
        exact ⟨g, ⟨rfl, rfl⟩, same, rest⟩
      · rintro ⟨m, ⟨same, same'⟩, same'', rest⟩
        exact ⟨same''.trans same, same ▸ same' ▸ rest⟩
  simp only [setText, Fields.update_eq_ok_iff distinct]
  rw [forall₂_congr_iff both]
  constructor
  · intro each
    exact exists_between each
  · rintro ⟨mid, first, rest⟩
    exact Fields.forall₂_trans (fun g m g' h h' => ⟨m, h, h'⟩) first rest

theorem becomes_cons_iff {ts : String → List (List Char)} {key : String} {t : List Char} (inside : block? v = some block)
    (distinct : (block.map (·.1)).Nodup) : Becomes (fun k => (if key = k then [t] else []) ++ ts k) v w ↔
      ∃ mid, setText key t block = .ok mid ∧ Becomes ts (withBlock mid v) w := by
  simp only [becomes_iff inside, becomes_iff (block?_withBlock inside), forall₂_filled_cons_iff distinct,
    withBlock_withBlock]
  constructor
  · rintro ⟨block', ⟨mid, first, rest⟩, same⟩
    exact ⟨mid, first, block', rest, same⟩
  · rintro ⟨mid, first, block', rest, same⟩
    exact ⟨block', ⟨mid, first, rest⟩, same⟩

/-- A value that can take lines but no text, and that is open if lines go to it; no key is twice in its record. -/
structure TakesLines (S : Schema) (key : String) (current : Option String) (v : Value) : Prop where
  ready : (openBlock? S v).isSome
  closed : ∀ t w, parse v.shape t ≠ .ok w
  distinct : ∀ block, block? (opened S v) = some block → (block.map (·.1)).Nodup
  inside : current = some key → openBlock? S v = some v

theorem TakesLines.opened_eq {key : String} {current : Option String} (h : TakesLines S key current v)
    (here : current = some key) : opened S v = v := by
  rw [opened, h.inside here, Option.getD_some]

/-- A header leaves a field open if it names it. -/
theorem TakesLines.header {key : String} {current : Option String} (h : TakesLines S key current v) (name : String) :
    TakesLines S key (some name) (if name = key then opened S v else v) := by
  by_cases here : name = key
  · rw [if_pos here]
    refine ⟨by rw [openBlock?_opened]; exact h.ready, by rw [shape_opened]; exact h.closed, ?_, fun _ => ?_⟩
    · rw [opened_opened]
      exact h.distinct
    · obtain ⟨w, hw⟩ := Option.isSome_iff_exists.1 h.ready
      rw [openBlock?_opened, opened, hw, Option.getD_some]
  · rw [if_neg here]
    exact ⟨h.ready, h.closed, h.distinct, fun same => absurd (Option.some.inj same) here⟩

/-- So does an assignment in its section. -/
theorem TakesLines.setText {key k : String} {t : List Char} (h : TakesLines S key (some key) v)
    (inside : block? v = some block) (stored : setText k t block = .ok block') :
    TakesLines S key (some key) (withBlock block' v) := by
  have stays := openBlock?_withBlock block' (h.inside rfl)
  refine ⟨by rw [stays]; rfl, by rw [shape_withBlock]; exact h.closed, fun final found => ?_, fun _ => stays⟩
  rw [opened, stays, Option.getD_some, block?_withBlock inside] at found
  cases found
  rw [(Fields.keys_of_update stored).1]
  exact h.distinct block ((h.opened_eq rfl).symm ▸ inside)

/-- **A record of the root takes the texts of its section**, wherever the section is taken up, and is opened by any of
its headers. -/
theorem follow_eq_ok_iff_becomes {key : String} : ∀ {ls : List (List Char)} {current : Option String} {v w : Value},
    TakesLines S key current v → (follow S key current ls v = .ok w ↔ texts none key current ls = [] ∧
      Becomes (fun k => texts (some key) k current ls) (if key ∈ headers ls then opened S v else v) w)
  | [], current, v, w, _ => by
    simp only [follow, texts, true_and]
    have none : key ∉ headers [] := List.not_mem_nil
    rw [if_neg none, becomes_nil_iff, Except.ok.injEq, eq_comm]
  | line :: ls, current, v, w, lines => by
    simp only [follow, texts]
    rw [headers_cons]
    generalize classify line = l
    cases l with
    | nothing | fault why => exact follow_eq_ok_iff_becomes lines
    | header name =>
      refine (follow_eq_ok_iff_becomes (lines.header name)).trans (and_congr_right' ?_)
      by_cases here : name = key
      · have named : key ∈ (Line.header name).names ++ headers ls :=
          List.mem_append_left _ (List.mem_singleton.2 here.symm)
        rw [if_pos here, opened_opened, ite_self, if_pos named]
        rfl
      · have same : key ∈ (Line.header name).names ++ headers ls ↔ key ∈ headers ls := by
          rw [List.mem_append, Line.names, List.mem_singleton, or_iff_right (Ne.symm here)]
        rw [if_neg here]
        simp only [← same]
        rfl
    | entry k t =>
      cases current with
      | none =>
        by_cases here : k = key
        · simp only [Line.textFor, Line.step, here, and_self, if_true, List.cons_append, reduceCtorEq,
            false_and, iff_false]
          intro h
          obtain ⟨u, stored, -⟩ := Except.bind_eq_ok_iff.1 h
          exact lines.closed t u stored
        · simp only [Line.textFor, Line.step, here, and_false, reduceCtorEq, false_and, if_false]
          exact follow_eq_ok_iff_becomes lines
      | some name =>
        by_cases here : name = key
        · subst here
          obtain ⟨block, inside⟩ := exists_block_of_openBlock? (lines.inside rfl)
          have distinct := lines.distinct block ((lines.opened_eq rfl).symm ▸ inside)
          simp only [Line.step, Line.textFor, Line.next, if_true, true_and, lines.opened_eq rfl, ite_self, reduceCtorEq,
            false_and, if_false, List.nil_append, becomes_cons_iff inside distinct, Except.bind_eq_ok_iff,
            updateBlock_eq_ok_iff inside]
          constructor
          · rintro ⟨_, ⟨mid, stored, rfl⟩, rest⟩
            have lines' := lines.setText inside stored
            obtain ⟨none, becomes⟩ := (follow_eq_ok_iff_becomes lines').1 rest
            rw [lines'.opened_eq rfl, ite_self] at becomes
            exact ⟨none, mid, stored, becomes⟩
          · rintro ⟨none, mid, stored, becomes⟩
            have lines' := lines.setText inside stored
            refine ⟨_, ⟨mid, stored, rfl⟩, (follow_eq_ok_iff_becomes lines').2 ⟨none, ?_⟩⟩
            rwa [lines'.opened_eq rfl, ite_self]
        · simp only [Line.step, Line.textFor, here, Option.some.injEq, reduceCtorEq, false_and, if_false]
          exact follow_eq_ok_iff_becomes lines

end Blocks

/-!
## What a text says of a record
-/

/-- A record type in which no key is there twice, nor in the record types within it, whose fields start with values of
their shapes, and with nothing where a section is optional. -/
structure Regular (S : Schema) (name : String) : Prop where
  distinct : ∀ inner, S.Contains (.record inner) (.record name) → ((S.fieldsOf inner).map (·.key)).Nodup
  starts : ∀ f ∈ S.fieldsOf name, S.HasShape f.initial f.shape
  unopened : ∀ f ∈ S.fieldsOf name, ∀ inner, f.shape = .optional (.record inner) → f.initial = .absent (.record inner)

theorem Suited.regular {name : String} (h : Suited S (.record name)) : Regular S name where
  distinct := h.distinct
  starts := h.starts name .self
  unopened f hf inner shape := by
    have fits := h.starts name .self f hf
    rw [shape] at fits
    exact (h.unset name .self f hf).eq_absent fits

/-- What lines say of a field.  A leaf takes the texts for its key in front of the first header; a record takes those
for its own keys in the sections named like the field.  An optional record is present if a header names it. -/
inductive Told (S : Schema) (ls : List (List Char)) (type : FieldType) : Value → Prop where
  | leaf {w : Value} : type.shape.record? = none → Takes (texts none type.key none ls) type.initial w → Told S ls type w
  | record {name : String} {start block : List (String × Value)} :
    type.initial = .record name start → texts none type.key none ls = [] →
    List.Forall₂ (Filled fun k => texts (some type.key) k none ls) start block → Told S ls type (.record name block)
  | present {name : String} {block : List (String × Value)} :
    type.shape = .optional (.record name) → texts none type.key none ls = [] → type.key ∈ headers ls →
    List.Forall₂ (Filled fun k => texts (some type.key) k none ls) (startOf S name) block →
    Told S ls type (.present (.record name) (.record name block))
  | absent {name : String} :
    type.shape = .optional (.record name) → texts none type.key none ls = [] → type.key ∉ headers ls →
    Told S ls type (.absent (.record name))

section Told

variable {name : String} {type : FieldType} {ls : List (List Char)} {w : Value}

theorem keys_startOf (S : Schema) (name : String) : (startOf S name).map (·.1) = (S.fieldsOf name).map (·.key) := by
  rw [startOf, List.map_map]
  rfl

theorem Regular.nodup_startOf (regular : Regular S name) : ((startOf S name).map (·.1)).Nodup :=
  keys_startOf S name ▸ regular.distinct name .self

theorem openBlock?_absent (S : Schema) (name : String) : openBlock? S (.absent (.record name)) =
    some (.present (.record name) (.record name (startOf S name))) := by
  rw [openBlock?, initial_record]

/-- A field is a leaf, a record or an optional record that starts absent; others take no text. -/
theorem Regular.cases (regular : Regular S name) (htype : type ∈ S.fieldsOf name) :
    type.shape.record? = none ∨
    (∃ inner start, type.shape = .record inner ∧ type.initial = .record inner start ∧
      start.map (·.1) = (S.fieldsOf inner).map (·.key)) ∨
    ∃ inner, type.shape = .optional (.record inner) ∧ type.initial = .absent (.record inner) := by
  have fits := regular.starts type htype
  have unopened := regular.unopened type htype
  generalize type.shape = shape at fits unopened
  cases shape with
  | record inner =>
    generalize type.initial = v at fits
    cases fits with
    | record keys => exact .inr (.inl ⟨inner, _, rfl, rfl, keys⟩)
  | optional content =>
    cases content with
    | record inner => exact .inr (.inr ⟨inner, rfl, unopened inner rfl⟩)
    | _ => exact .inl rfl
  | _ => exact .inl rfl

theorem parse_ne_ok {v : Value} {shape : Shape} (fits : S.HasShape v shape) (record : shape.record?.isSome)
    (t : List Char) (w : Value) : parse v.shape t ≠ .ok w := by
  rw [parse_shape fits]
  intro h
  rw [record?_of_parse h] at record
  cases record

section Kinds

variable {inner : String}

theorem told_leaf_iff (fits : S.HasShape type.initial type.shape) (leaf : type.shape.record? = none) :
    Told S ls type w ↔ Takes (texts none type.key none ls) type.initial w := by
  refine ⟨fun told => ?_, .leaf leaf⟩
  cases told with
  | leaf _ takes => exact takes
  | record initial =>
    rw [initial] at fits
    generalize type.shape = shape at fits leaf
    cases fits
    cases leaf
  | present shape | absent shape =>
    rw [shape] at leaf
    cases leaf

theorem told_record_iff {start : List (String × Value)} (shape : type.shape = .record inner)
    (initial : type.initial = .record inner start) : Told S ls type w ↔ texts none type.key none ls = [] ∧
      ∃ block, List.Forall₂ (Filled fun k => texts (some type.key) k none ls) start block ∧ .record inner block = w := by
  constructor
  · intro told
    cases told with
    | leaf leaf => rw [shape] at leaf; cases leaf
    | record start none filled =>
      rw [initial] at start
      cases start
      exact ⟨none, _, filled, rfl⟩
    | present shape' | absent shape' => rw [shape] at shape'; cases shape'
  · rintro ⟨none, block, filled, rfl⟩
    exact .record initial none filled

theorem told_optional_iff (shape : type.shape = .optional (.record inner))
    (initial : type.initial = .absent (.record inner)) : Told S ls type w ↔ texts none type.key none ls = [] ∧
      if type.key ∈ headers ls then
        ∃ block, List.Forall₂ (Filled fun k => texts (some type.key) k none ls) (startOf S inner) block ∧
          .present (.record inner) (.record inner block) = w
      else w = .absent (.record inner) := by
  constructor
  · intro told
    cases told with
    | leaf leaf => rw [shape] at leaf; cases leaf
    | record start => rw [initial] at start; cases start
    | present shape' none named filled =>
      rw [shape] at shape'
      cases shape'
      rw [if_pos named]
      exact ⟨none, _, filled, rfl⟩
    | absent shape' none unnamed =>
      rw [shape] at shape'
      cases shape'
      rw [if_neg unnamed]
      exact ⟨none, rfl⟩
  · rintro ⟨none, becomes⟩
    by_cases named : type.key ∈ headers ls
    · rw [if_pos named] at becomes
      obtain ⟨block, filled, rfl⟩ := becomes
      exact .present shape none named filled
    · rw [if_neg named] at becomes
      obtain rfl := becomes
      exact .absent shape none named

end Kinds

/-- **What lines do to a field is what they say of it.** -/
theorem follow_eq_ok_iff_told (regular : Regular S name) (htype : type ∈ S.fieldsOf name) :
    follow S type.key none ls type.initial = .ok w ↔ Told S ls type w := by
  have fits := regular.starts type htype
  obtain leaf | ⟨inner, start, shape, initial, keys⟩ | ⟨inner, shape, initial⟩ := regular.cases htype
  · rw [told_leaf_iff fits leaf, follow_eq_ok_iff_takes (openBlock?_eq_none fits leaf)]
  · have within : S.Contains (.record inner) (.record name) := .field htype (shape ▸ .self)
    have lines : TakesLines S type.key none type.initial := by
      refine ⟨by rw [initial]; rfl, parse_ne_ok fits (by rw [shape]; rfl), fun block found => ?_, nofun⟩
      rw [initial] at found
      cases found
      exact keys ▸ regular.distinct inner within
    have same : opened S type.initial = type.initial := by
      rw [initial]
      rfl
    rw [told_record_iff shape initial, follow_eq_ok_iff_becomes lines, same, ite_self, initial]
    rfl
  · have within : S.Contains (.record inner) (.record name) := .field htype (shape ▸ .optional .self)
    have present : opened S type.initial = .present (.record inner) (.record inner (startOf S inner)) := by
      rw [initial, opened, openBlock?_absent, Option.getD_some]
    have lines : TakesLines S type.key none type.initial := by
      refine ⟨by rw [initial, openBlock?_absent]; rfl, parse_ne_ok fits (by rw [shape]; rfl), fun block found => ?_, nofun⟩
      rw [present] at found
      cases found
      exact keys_startOf S inner ▸ regular.distinct inner within
    rw [told_optional_iff shape initial, follow_eq_ok_iff_becomes lines, present, initial]
    by_cases named : type.key ∈ headers ls
    · rw [if_pos named, if_pos named]
      rfl
    · rw [if_neg named, if_neg named]
      rfl

/-- **A text is read as what its lines say of each field**, if none of them is at fault. -/
theorem read_eq_ok_iff_told (regular : Regular S name) {t : String} {v : Value} :
    read S (.record name) t = .ok v ↔ (∀ line ∈ splitLines t.toList, (classify line).isFault = false) ∧
      ∃ fields, v = .record name fields ∧
        List.Forall₂ (fun type f => f.1 = type.key ∧ Told S (splitLines t.toList) type f.2) (S.fieldsOf name) fields := by
  have each (fields : List (String × Value)) : List.Forall₂ (Follows S none (splitLines t.toList)) (startOf S name) fields ↔
      List.Forall₂ (fun type f => f.1 = type.key ∧ Told S (splitLines t.toList) type f.2) (S.fieldsOf name) fields := by
    rw [startOf, List.forall₂_map_left_iff]
    constructor
    · intro h
      exact forall₂_imp_of_mem h fun type htype f _ h => ⟨h.1, (follow_eq_ok_iff_told regular htype).1 h.2⟩
    · intro h
      exact forall₂_imp_of_mem h fun type htype f _ h => ⟨h.1, (follow_eq_ok_iff_told regular htype).2 h.2⟩
  have placed : (⟨startOf S name, .root⟩ : State).target = targetOf S none (startOf S name) := rfl
  rw [read_eq, Except.map_eq_ok_iff]
  simp only [readLines_eq_ok_iff (s := ⟨startOf S name, .root⟩) regular.nodup_startOf placed, each]
  constructor
  · rintro ⟨s, ⟨sound, -, told⟩, rfl⟩
    exact ⟨sound, s.fields, rfl, told⟩
  · rintro ⟨sound, fields, rfl, told⟩
    exact ⟨⟨fields, targetOf S (sectionBehind none (splitLines t.toList)) fields⟩, ⟨sound, rfl, told⟩, rfl⟩

end Told

end Settings
end AssetRecords
