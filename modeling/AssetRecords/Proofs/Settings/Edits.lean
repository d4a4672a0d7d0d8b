import AssetRecords.Proofs.Settings.LastLine
import Mathlib.Logic.Relation
/-!
# Edits — changes to a text that do not show

Two texts are read as the same record if they assign the same texts to every known key and name the same sections
(`read_eq_ok_iff_of_alike`).  So blank lines, comments, unknown keys and unknown sections may come and go, and lines of
different keys and blocks of different sections may change places (`alike_of_edit`).
-/
namespace AssetRecords
namespace Settings

variable {S : Schema} {name : String}

/-- A section that a header opens. -/
def Opens (S : Schema) (name : String) (s : String) : Prop :=
  ∃ type ∈ S.fieldsOf name, type.key = s ∧ type.shape.record?.isSome

/-- A key that a line can assign a text to in a section. -/
def Known (S : Schema) (name : String) : (section? : Option String) → String → Prop
  | none, key => key ∈ (S.fieldsOf name).map (·.key)
  | some s, key => ∃ type ∈ S.fieldsOf name, type.key = s ∧
    ∃ inner, type.shape.record? = some inner ∧ key ∈ (S.fieldsOf inner).map (·.key)

theorem Known.opens {s key : String} (h : Known S name (some s) key) : Opens S name s := by
  obtain ⟨type, htype, here, inner, record, -⟩ := h
  exact ⟨type, htype, here, by rw [record]; rfl⟩

/-!
## Lines one after the other
-/

section Append

variable {section? current current' : Option String} {key s : String} {ls ls' block : List (List Char)}

theorem headers_append (ls ls' : List (List Char)) : headers (ls ++ ls') = headers ls ++ headers ls' :=
  List.flatMap_append

theorem texts_append (section? : Option String) (key : String) (current : Option String) (ls ls' : List (List Char)) :
    texts section? key current (ls ++ ls') =
      texts section? key current ls ++ texts section? key (sectionBehind current ls) ls' := by
  induction ls generalizing current with
  | nil => rfl
  | cons line rest ih =>
    rw [List.cons_append, texts, texts, ih, List.append_assoc]
    rfl

/-- Lines that no header is among. -/
def Plain (ls : List (List Char)) : Prop := ∀ line ∈ ls, (classify line).names = []

/-- Without a header the section stays, and what is assigned is assigned there. -/
theorem texts_of_plain (plain : Plain ls) (other : current ≠ section?) : texts section? key current ls = [] := by
  induction ls with
  | nil => rfl
  | cons line rest ih =>
    obtain ⟨here, plain⟩ := List.forall_mem_cons.1 plain
    rw [texts]
    cases said : classify line with
    | header s => rw [said] at here; cases here
    | entry k t =>
      rw [Line.textFor, if_neg fun h => other h.1]
      exact ih plain
    | _ => exact ih plain

/-- A header and the lines up to the next one. -/
def IsBlock (s : String) (block : List (List Char)) : Prop :=
  ∃ line body, block = line :: body ∧ classify line = .header s ∧ Plain body

/-- Lines that do not belong to the section in front of them: there are none, or the first one is a header. -/
def Restarts : List (List Char) → Prop
  | [] => True
  | line :: _ => ∃ s, classify line = .header s

theorem texts_of_restarts (restarts : Restarts ls) (current current' : Option String) :
    texts section? key current ls = texts section? key current' ls := by
  cases ls with
  | nil => rfl
  | cons line rest =>
    obtain ⟨s, said⟩ := restarts
    rw [texts, texts, said]
    rfl

theorem IsBlock.restarts (h : IsBlock s block) (ls : List (List Char)) : Restarts (block ++ ls) := by
  obtain ⟨line, body, rfl, said, -⟩ := h
  exact ⟨s, said⟩

theorem IsBlock.headers_eq (h : IsBlock s block) : headers block = [s] := by
  obtain ⟨line, body, rfl, said, plain⟩ := h
  rw [headers_cons, said, headers, List.flatMap_eq_nil_iff.2 plain]
  rfl

/-- A block assigns nothing in other sections. -/
theorem IsBlock.texts_eq_nil (h : IsBlock s block) (other : section? ≠ some s) :
    texts section? key current block = [] := by
  obtain ⟨line, body, rfl, said, plain⟩ := h
  rw [texts, said]
  exact texts_of_plain plain (Ne.symm other)

theorem IsBlock.texts_congr (h : IsBlock s block) (current current' : Option String) :
    texts section? key current block = texts section? key current' block :=
  texts_of_restarts (List.append_nil block ▸ h.restarts []) current current'

/-- Blocks of different sections change places. -/
theorem texts_swap {s' : String} {block' : List (List Char)} (h : IsBlock s block) (h' : IsBlock s' block')
    (apart : s ≠ s') : texts section? key current (block ++ block') = texts section? key current (block' ++ block) := by
  rw [texts_append, texts_append]
  by_cases here : section? = some s
  · have other : section? ≠ some s' := fun same => apart (Option.some.inj (here.symm.trans same))
    rw [h'.texts_eq_nil other, h'.texts_eq_nil other, List.append_nil, List.nil_append]
    exact h.texts_congr _ _
  · rw [h.texts_eq_nil here, h.texts_eq_nil here, List.append_nil, List.nil_append]
    exact h'.texts_congr _ _

end Append

/-!
## Texts that say the same
-/

/-- Lines that say the same of every field. -/
structure Alike (S : Schema) (name : String) (ls ls' : List (List Char)) : Prop where
  sound : (∀ line ∈ ls, (classify line).isFault = false) ↔ ∀ line ∈ ls', (classify line).isFault = false
  texts : ∀ section? key, Known S name section? key → texts section? key none ls = texts section? key none ls'
  headers : ∀ s, Opens S name s → (s ∈ headers ls ↔ s ∈ headers ls')

section Alike

variable {ls ls' ls'' : List (List Char)} {type : FieldType} {w w' : Value}

theorem Alike.refl (ls : List (List Char)) : Alike S name ls ls := ⟨Iff.rfl, fun _ _ _ => rfl, fun _ _ => Iff.rfl⟩

theorem Alike.symm (h : Alike S name ls ls') : Alike S name ls' ls where
  sound := h.sound.symm
  texts section? key known := (h.texts section? key known).symm
  headers s opens := (h.headers s opens).symm

theorem Alike.trans (h : Alike S name ls ls') (h' : Alike S name ls' ls'') : Alike S name ls ls'' where
  sound := h.sound.trans h'.sound
  texts section? key known := (h.texts section? key known).trans (h'.texts section? key known)
  headers s opens := (h.headers s opens).trans (h'.headers s opens)

/-- The keys of a field's record are known in the section of the field. -/
theorem known_of_mem {inner : String} {fields : List (String × Value)} (htype : type ∈ S.fieldsOf name)
    (record : type.shape.record? = some inner) (keys : fields.map (·.1) = (S.fieldsOf inner).map (·.key))
    {g : String × Value} (hg : g ∈ fields) : Known S name (some type.key) g.1 :=
  ⟨type, htype, rfl, inner, record, keys ▸ List.mem_map_of_mem hg⟩

theorem told_congr (regular : Regular S name) (htype : type ∈ S.fieldsOf name)
    (alike : Alike S name ls ls') (w : Value) : Told S ls type w → Told S ls' type w := by
  have root := alike.texts none type.key (List.mem_map_of_mem htype)
  obtain leaf | ⟨inner, start, shape, initial, keys⟩ | ⟨inner, shape, initial⟩ := regular.cases htype
  · have fits := regular.starts type htype
    rw [told_leaf_iff fits leaf, told_leaf_iff fits leaf, root]
    exact id
  · have record : type.shape.record? = some inner := by rw [shape]; rfl
    rw [told_record_iff shape initial, told_record_iff shape initial, root]
    rintro ⟨none, block, filled, rfl⟩
    refine ⟨none, block, forall₂_filled_congr (fun g hg => ?_) filled, rfl⟩
    exact alike.texts _ _ (known_of_mem htype record keys hg)
  · have record : type.shape.record? = some inner := by rw [shape]; rfl
    rw [told_optional_iff shape initial, told_optional_iff shape initial, root]
    simp only [alike.headers type.key ⟨type, htype, rfl, by rw [record]; rfl⟩]
    refine And.imp_right fun becomes => ?_
    by_cases named : type.key ∈ headers ls'
    · rw [if_pos named] at becomes ⊢
      obtain ⟨block, filled, rfl⟩ := becomes
      refine ⟨block, forall₂_filled_congr (fun g hg => ?_) filled, rfl⟩
      exact alike.texts _ _ (known_of_mem htype record (keys_startOf S inner) hg)
    · rwa [if_neg named] at becomes ⊢

/-- **Texts that say the same are read as the same record.** -/
theorem read_eq_ok_iff_of_alike (regular : Regular S name) {t t' : String}
    (alike : Alike S name (splitLines t.toList) (splitLines t'.toList)) (v : Value) :
    read S (.record name) t = .ok v ↔ read S (.record name) t' = .ok v := by
  rw [read_eq_ok_iff_told regular, read_eq_ok_iff_told regular, alike.sound]
  refine and_congr_right' (exists_congr fun fields => and_congr_right' ⟨fun each => ?_, fun each => ?_⟩)
  · exact forall₂_imp_of_mem each fun type htype f _ h => ⟨h.1, told_congr regular htype alike _ h.2⟩
  · exact forall₂_imp_of_mem each fun type htype f _ h => ⟨h.1, told_congr regular htype alike.symm _ h.2⟩

end Alike

/-!
## Changes
-/

/-- A change to the lines of a text.  A line of an unknown key may be of any text; a block is taken as a whole, in front
of another header or of the end. -/
inductive Edit (S : Schema) (name : String) : List (List Char) → List (List Char) → Prop where
  | blank {before after : List (List Char)} {line : List Char} :
    classify line = .nothing → Edit S name (before ++ after) (before ++ line :: after)
  | key {before after : List (List Char)} {line : List Char} {key : String} {text : List Char} :
    classify line = .entry key text → ¬ Known S name (sectionBehind none before) key →
    Edit S name (before ++ after) (before ++ line :: after)
  | block {before block after : List (List Char)} {s : String} :
    IsBlock s block → (∀ line ∈ block, (classify line).isFault = false) → ¬ Opens S name s → Restarts after →
    Edit S name (before ++ after) (before ++ (block ++ after))
  | swapBlocks {before block block' after : List (List Char)} {s s' : String} :
    IsBlock s block → IsBlock s' block' → s ≠ s' → Restarts after →
    Edit S name (before ++ (block ++ (block' ++ after))) (before ++ (block' ++ (block ++ after)))
  | swapLines {before after : List (List Char)} {line line' : List Char} {key key' : String} {text text' : List Char} :
    classify line = .entry key text → classify line' = .entry key' text' → key ≠ key' →
    Edit S name (before ++ line :: line' :: after) (before ++ line' :: line :: after)

section Edits

variable {ls ls' before : List (List Char)}

/-- What is alike behind lines is alike with them. -/
theorem alike_append
    (sound : (∀ line ∈ ls, (classify line).isFault = false) ↔ ∀ line ∈ ls', (classify line).isFault = false)
    (texts : ∀ section? key, Known S name section? key →
      texts section? key (sectionBehind none before) ls = texts section? key (sectionBehind none before) ls')
    (headers : ∀ s, Opens S name s → (s ∈ headers ls ↔ s ∈ headers ls')) :
    Alike S name (before ++ ls) (before ++ ls') where
  sound := by rw [List.forall_mem_append, List.forall_mem_append, sound]
  texts section? key known := by rw [texts_append, texts_append, texts section? key known]
  headers s opens := by rw [headers_append, headers_append, List.mem_append, List.mem_append, headers s opens]

/-- **A change to the lines does not show.** -/
theorem alike_of_edit (edit : Edit S name ls ls') : Alike S name ls ls' := by
  cases edit with
  | @blank before after line said =>
    refine alike_append ?_ (fun section? key known => ?_) fun s _ => ?_
    · rw [List.forall_mem_cons, said]
      exact (and_iff_right rfl).symm
    · rw [texts, said]
      rfl
    · rw [headers_cons, said]
      rfl
  | @key before after line key text said unknown =>
    refine alike_append ?_ (fun section? key' known => ?_) fun s _ => ?_
    · rw [List.forall_mem_cons, said]
      exact (and_iff_right rfl).symm
    · have other : ¬(sectionBehind none before = section? ∧ key = key') := by
        rintro ⟨rfl, rfl⟩
        exact unknown known
      rw [texts, said, Line.textFor, if_neg other]
      rfl
    · rw [headers_cons, said]
      rfl
  | @block before block after s isBlock sound unknown restarts =>
    refine alike_append ?_ (fun section? key known => ?_) fun s' opens => ?_
    · rw [List.forall_mem_append, and_iff_right sound]
    · have other : section? ≠ some s := by
        rintro rfl
        exact unknown known.opens
      rw [texts_append, isBlock.texts_eq_nil other, List.nil_append]
      exact texts_of_restarts restarts _ _
    · have other : s' ≠ s := by
        rintro rfl
        exact unknown opens
      rw [headers_append, isBlock.headers_eq, List.mem_append, List.mem_singleton, or_iff_right other]
  | @swapBlocks before block block' after s s' isBlock isBlock' apart restarts =>
    refine alike_append ?_ (fun section? key known => ?_) fun s _ => ?_
    · rw [List.forall_mem_append, List.forall_mem_append, List.forall_mem_append, List.forall_mem_append,
        and_left_comm]
    · rw [← List.append_assoc, ← List.append_assoc, texts_append _ _ _ (block ++ block'),
        texts_append _ _ _ (block' ++ block), texts_swap isBlock isBlock' apart]
      exact congrArg _ (texts_of_restarts restarts _ _)
    · simp only [headers_append, List.mem_append, or_left_comm]
  | @swapLines before after line line' key key' text text' said said' apart =>
    refine alike_append ?_ (fun section? k known => ?_) fun s _ => ?_
    · rw [List.forall_mem_cons, List.forall_mem_cons, List.forall_mem_cons, List.forall_mem_cons, and_left_comm]
    · have either : ¬(key = k ∧ key' = k) := fun h => apart (h.1.trans h.2.symm)
      rw [texts, texts, texts, texts, said, said', ← List.append_assoc, ← List.append_assoc]
      refine congrArg (· ++ _) ?_
      by_cases first : key = k
      · have second (current) : (Line.entry key' text').textFor section? k current = [] :=
          if_neg fun h => either ⟨first, h.2⟩
        rw [second, second, List.append_nil, List.nil_append]
        rfl
      · have none (current) : (Line.entry key text).textFor section? k current = [] := if_neg fun h => first h.2
        rw [none, none, List.append_nil, List.nil_append]
        rfl
    · rw [headers_cons, headers_cons, headers_cons, headers_cons, said, said']
      rfl

theorem alike_of_edits (edits : Relation.EqvGen (Edit S name) ls ls') : Alike S name ls ls' := by
  induction edits with
  | rel _ _ edit => exact alike_of_edit edit
  | refl ls => exact .refl ls
  | symm _ _ _ ih => exact ih.symm
  | trans _ _ _ _ _ ih ih' => exact ih.trans ih'

end Edits

/-!
## The whole text
-/

/-- What two texts tell of a leaf is the same if the last one is. -/
theorem Takes.eq_of_last {ts ts' : List (List Char)} {old new new' : Value} (h : Takes ts old new)
    (h' : Takes ts' old new') (last : ts.getLast? = ts'.getLast?) : new = new' := by
  have here := h.2
  have here' := h'.2
  rw [last] at here
  cases found : ts'.getLast? with
  | none =>
    rw [found] at here here'
    exact here.trans here'.symm
  | some t =>
    rw [found] at here here'
    exact Except.ok.inj (here.symm.trans here')

theorem eq_of_forall₂_filled {ts ts' : String → List (List Char)} {block inner inner' : List (String × Value)}
    (last : ∀ g ∈ block, (ts g.1).getLast? = (ts' g.1).getLast?) (h : List.Forall₂ (Filled ts) block inner)
    (h' : List.Forall₂ (Filled ts') block inner') : inner = inner' :=
  eq_of_forall₂ h h' fun g hg _ _ filled filled' =>
    Prod.ext (filled.1.trans filled'.1.symm) (filled.2.eq_of_last filled'.2 (last g hg))

/-- Lines whose last texts for the known keys are the same. -/
structure SameLast (S : Schema) (name : String) (ls ls' : List (List Char)) : Prop where
  texts : ∀ section? key, Known S name section? key →
    (texts section? key none ls).getLast? = (texts section? key none ls').getLast?
  headers : ∀ type ∈ S.fieldsOf name, ∀ inner, type.shape = .optional (.record inner) →
    (type.key ∈ headers ls ↔ type.key ∈ headers ls')

theorem eq_of_sameLast (regular : Regular S name) {type : FieldType} (htype : type ∈ S.fieldsOf name)
    {ls ls' : List (List Char)} (same : SameLast S name ls ls') {w w' : Value} (told : Told S ls type w)
    (told' : Told S ls' type w') : w = w' := by
  obtain leaf | ⟨inner, start, shape, initial, keys⟩ | ⟨inner, shape, initial⟩ := regular.cases htype
  · have fits := regular.starts type htype
    have takes := (told_leaf_iff fits leaf).1 told
    exact takes.eq_of_last ((told_leaf_iff fits leaf).1 told') (same.texts none type.key (List.mem_map_of_mem htype))
  · have record : type.shape.record? = some inner := by rw [shape]; rfl
    obtain ⟨-, block, filled, rfl⟩ := (told_record_iff shape initial).1 told
    obtain ⟨-, block', filled', rfl⟩ := (told_record_iff shape initial).1 told'
    have last := fun g hg => same.texts _ _ (known_of_mem (g := g) htype record keys hg)
    rw [eq_of_forall₂_filled last filled filled']
  · have record : type.shape.record? = some inner := by rw [shape]; rfl
    obtain ⟨-, becomes⟩ := (told_optional_iff shape initial).1 told
    obtain ⟨-, becomes'⟩ := (told_optional_iff shape initial).1 told'
    simp only [← same.headers type htype inner shape] at becomes'
    by_cases named : type.key ∈ headers ls
    · rw [if_pos named] at becomes becomes'
      obtain ⟨block, filled, rfl⟩ := becomes
      obtain ⟨block', filled', rfl⟩ := becomes'
      have last := fun g hg => same.texts _ _ (known_of_mem (g := g) htype record (keys_startOf S inner) hg)
      rw [eq_of_forall₂_filled last filled filled']
    · rw [if_neg named] at becomes becomes'
      rw [becomes, becomes']

/-- **The last line of a key in a section counts, and nothing else.**  A text is read if no line of it is at fault and
each text for a known key spells a value of its; then each leaf of the root takes the last text for its key in front of
the first header, and each leaf of a record the last one for its key in any block of the section of the record, and
both are left as they start if there is none; an optional record is present if and only if a header names it.  Texts
with the same last texts are read as the same record, however they differ otherwise.  Changes that leave the texts of
every known key in order leave the record as it is, and leave a text that cannot be read one that cannot be read. -/
theorem last_line_counts (regular : Regular S name) :
    (∀ t v, read S (.record name) t = .ok v ↔ (∀ line ∈ splitLines t.toList, (classify line).isFault = false) ∧
      ∃ fields, v = .record name fields ∧
        List.Forall₂ (fun type f => f.1 = type.key ∧ Told S (splitLines t.toList) type f.2) (S.fieldsOf name) fields) ∧
    (∀ t t' v v', read S (.record name) t = .ok v → read S (.record name) t' = .ok v' →
      SameLast S name (splitLines t.toList) (splitLines t'.toList) → v = v') ∧
    ∀ t t', Relation.EqvGen (Edit S name) (splitLines t.toList) (splitLines t'.toList) →
      ∀ v, read S (.record name) t = .ok v ↔ read S (.record name) t' = .ok v := by
  refine ⟨fun t v => read_eq_ok_iff_told regular, fun t t' v v' h h' same => ?_, fun t t' edits => ?_⟩
  · obtain ⟨-, fields, rfl, each⟩ := (read_eq_ok_iff_told regular).1 h
    obtain ⟨-, fields', rfl, each'⟩ := (read_eq_ok_iff_told regular).1 h'
    refine congrArg _ (eq_of_forall₂ each each' fun type htype f f' told told' => ?_)
    exact Prod.ext (told.1.trans told'.1.symm) (eq_of_sameLast regular htype same told.2 told'.2)
  · exact read_eq_ok_iff_of_alike regular (alike_of_edits edits)

/-- Two sections of a station, one of them in two blocks, before and after blocks have changed places. -/
theorem last_line_counts_station :
    let t := "gain=1\nmotto=a\ngain=2\n[dial]\nwidth=1\nlabel=b\n[spare]\n[dial]\nwidth=2\n"
    let t' := "gain=1\nmotto=a\ngain=2\n[dial]\nwidth=1\nlabel=b\n[dial]\nwidth=2\n\n[spare]"
    Regular stations "Station" ∧ ∃ v, read stations (.record "Station") t = .ok v ∧
      read stations (.record "Station") t' = .ok v ∧ render v =
        .ok "motto=a\nkind=still\ngain=2\n\n[dial]\nwidth=2\nlabel=b\n\n[spare]\nwidth=0\nlabel=\n" := by
  intro t t'
  have regular := suited_stations.regular
  have run : (read stations (.record "Station") t >>= render).toOption =
      some "motto=a\nkind=still\ngain=2\n\n[dial]\nwidth=2\nlabel=b\n\n[spare]\nwidth=0\nlabel=\n" := by decide +kernel
  obtain ⟨v, found, written⟩ := Except.bind_eq_ok_iff.1 (Except.toOption_eq_some_iff.1 run)
  have plain : ∀ line ∈ ["width=2".toList, []], (classify line).names = [] := by decide +kernel
  have spare : IsBlock "spare" ["[spare]".toList] := ⟨_, [], rfl, by decide +kernel, nofun⟩
  have again : IsBlock "dial" ["[dial]".toList, "width=2".toList, []] := ⟨_, _, rfl, by decide +kernel, plain⟩
  have done : Restarts [] := trivial
  obtain ⟨before, lines, lines'⟩ : ∃ before,
      splitLines t.toList = before ++ (["[spare]".toList] ++ (["[dial]".toList, "width=2".toList, []] ++ [])) ∧
      splitLines t'.toList = before ++ (["[dial]".toList, "width=2".toList, []] ++ (["[spare]".toList] ++ [])) :=
    ⟨(splitLines t.toList).take 6, by decide +kernel, by decide +kernel⟩
  have edit : Edit stations "Station" (splitLines t.toList) (splitLines t'.toList) := by
    rw [lines', lines]
    exact .swapBlocks spare again (by decide) done
  exact ⟨regular, v, found, ((last_line_counts regular).2.2 t t' (.rel _ _ edit) v).1 found, written⟩

end Settings
end AssetRecords
