import AssetRecords.Proofs.Json.Numerals
import AssetRecords.Proofs.Json.Refusals
import AssetRecords.Proofs.Quoted
/-!
# Documents — what the text of a value says

The writer keeps to the grammar, and the layout is not seen in what a text says (`document_of_render`): every layout with
blanks gives a text for the same values, and each of these texts says the document of its value and nothing else.  So
whatever parser conforms to the grammar makes the tree of that document of all of them.  A window gets the front of that
text, all of it where it has the room (`window_takes_front`).
-/
namespace AssetRecords
namespace Json

open Emission (gives_piece_iff)

variable {number : List Char → Option Number}

mutual

/-- What the text of a value says.  Absent fields are left out of their record, numbers are spelled as they are written,
and what is present stands for itself. -/
def document : Value → Document
  | .leaf (.bool b) => .bool b
  | .leaf (.number s) => .number s.chars
  | .leaf (.text s) => .text s
  | .enum table variant => .text ((table.keyOf? variant).getD "")
  | .record _ fields => .object (documentMembers fields)
  | .tuple vs | .sequence _ vs => .array (documents vs)
  | .numbers type ns => .array (ns.map fun bits => .number (Scalar.chars ⟨type, bits⟩))
  | .buffer b => .array (b.scalars.map fun s => .number s.chars)
  | .absent _ => .null
  | .present _ v => document v

def documentMembers : List (String × Value) → List (String × Document)
  | [] => []
  | (key, v) :: rest => if isAbsent v then documentMembers rest else (key, document v) :: documentMembers rest

def documents : List Value → List Document
  | [] => []
  | v :: rest => document v :: documents rest

end

theorem documentMembers_eq (fields : List (String × Value)) :
    documentMembers fields = (kept fields).map fun f => (f.1, document f.2) := by
  induction fields with
  | nil => rw [documentMembers]; rfl
  | cons f rest ih =>
    rw [documentMembers, kept, List.filter_cons]
    cases isAbsent f.2 with
    | true => exact ih
    | false => exact congrArg (_ :: ·) ih

theorem documents_eq (vs : List Value) : documents vs = vs.map document := by
  induction vs with
  | nil => rw [documents, List.map_nil]
  | cons v rest ih => rw [documents, List.map_cons, ih]

/-!
## Trees of documents
-/

theorem nestingOfAll_documents {vs : List Value} (h : ∀ p ∈ vs, (document p).nesting = nesting p) :
    Document.nestingOfAll (documents vs) + 1 = max 1 (levelsOfAll 1 0 vs) := by
  induction vs with
  | nil => rfl
  | cons v rest ih =>
    rw [List.forall_mem_cons] at h
    have first : (document v).nesting = levels 1 0 v := h.1
    have others := ih h.2
    rw [documents, Document.nestingOfAll, levelsOfAll]
    omega

theorem nestingOfMembers_documents {fields : List (String × Value)}
    (h : ∀ f ∈ fields, (document f.2).nesting = nesting f.2) :
    Document.nestingOfMembers (documentMembers fields) + 1 = max 1 (levelsOfFields 1 0 fields) := by
  induction fields with
  | nil => rfl
  | cons f rest ih =>
    obtain ⟨key, v⟩ := f
    rw [List.forall_mem_cons] at h
    have first : (document v).nesting = levels 1 0 v := h.1
    have others := ih h.2
    rw [documentMembers, levelsOfFields]
    split
    · exact others
    · rw [Document.nestingOfMembers]
      omega

/-- Numbers alone nest one deep. -/
theorem nestingOfAll_numbers (ns : List Scalar) :
    Document.nestingOfAll (ns.map fun s => .number s.chars) = 0 := by
  induction ns with
  | nil => rfl
  | cons n rest ih =>
    rw [List.map_cons, Document.nestingOfAll, ih]
    rfl

/-- How deep the brackets nest in the text of a value is how deep they nest in its document. -/
theorem nesting_document (v : Value) : (document v).nesting = nesting v := by
  induction v using Value.parts_induction with
  | step v ih =>
    cases v with
    | leaf l => cases l <;> rfl
    | record name fields =>
      rw [document, Document.nesting, nesting, levels]
      exact nestingOfMembers_documents fun f hf => ih f.2 (List.mem_map_of_mem hf)
    | tuple vs | sequence _ vs =>
      rw [document, Document.nesting, nesting, levels]
      exact nestingOfAll_documents ih
    | numbers type ns =>
      have flat := nestingOfAll_numbers (ns.map (Scalar.mk type))
      rw [List.map_map] at flat
      exact congrArg (· + 1) flat
    | buffer b => exact congrArg (· + 1) (nestingOfAll_numbers b.scalars)
    | present content w =>
      rw [document]
      exact ih w List.mem_cons_self
    | _ => rfl

theorem mapM_map_eq_some {α β γ : Type} {f : β → Option γ} {g : α → β} {h : α → γ} {l : List α}
    (each : ∀ a ∈ l, f (g a) = some (h a)) : (l.map g).mapM f = some (l.map h) := by
  induction l with
  | nil => rfl
  | cons a l ih =>
    rw [List.forall_mem_cons] at each
    rw [List.map_cons, List.mapM_cons, each.1, ih each.2]
    rfl

theorem tree?_numbers {ns : List Scalar} (h : ∀ s ∈ ns, IsNumeral number s) :
    (Document.array (ns.map fun s => .number s.chars)).tree? number =
      some (.array (ns.map fun s => .number (numeral number s))) := by
  have each : ∀ s ∈ ns, (Document.number s.chars).tree? number = some (.number (numeral number s)) := fun s hs => by
    rw [Document.tree?, h s hs, Option.map_some]
  rw [Document.tree?, Document.trees?_eq, mapM_map_eq_some each, Option.map_some]

/-- **The tree of what a text says is the tree of the value**, if no number is refused. -/
theorem tree?_document {v : Value} (numeric : Numeric number v) : (document v).tree? number = some (tree number v) := by
  induction v using Value.parts_induction with
  | step v ih =>
    have part : ∀ p ∈ v.parts, (document p).tree? number = some (tree number p) := fun p hp =>
      ih p hp (numeric.part hp)
    cases v with
    | leaf l =>
      cases l with
      | number s =>
        rw [document, tree, Document.tree?, numeric _ s .self (List.mem_singleton_self s), Option.map_some]
      | _ => rfl
    | record name fields =>
      have each : ∀ f ∈ kept fields, ((document f.2).tree? number).map (f.1, ·) = some (f.1, tree number f.2) :=
        fun f hf => by rw [part f.2 (List.mem_map_of_mem (mem_kept_iff.1 hf).1), Option.map_some]
      rw [document, tree, Document.tree?, Document.members?_eq, documentMembers_eq, members_eq, mapM_map_eq_some each,
        Option.map_some]
    | tuple vs | sequence _ vs =>
      rw [document, tree, Document.tree?, Document.trees?_eq, documents_eq, trees_eq, mapM_map_eq_some (l := vs) part,
        Option.map_some]
    | numbers type ns =>
      have told : ∀ s ∈ ns.map (Scalar.mk type), IsNumeral number s := fun s hs => numeric _ s .self hs
      have numbers := tree?_numbers told
      rw [List.map_map, List.map_map] at numbers
      exact numbers
    | buffer b => exact tree?_numbers fun s hs => numeric _ s .self hs
    | present content w =>
      rw [document, tree]
      exact part w List.mem_cons_self
    | _ => rfl

/-!
## Strings
-/

theorem hex?_control {m n : Nat} (hm : m < 16) (hn : n < 16) :
    Quoted.hex? ['0', '0', Nat.digitChar m, Nat.digitChar n] = some (16 * m + n) := by
  have zero : Quoted.hexDigit? '0' = some 0 := rfl
  simp [Quoted.hex?, zero, Quoted.hexDigit?_digitChar m hm, Quoted.hexDigit?_digitChar n hn]

theorem stands_spell (c : Char) : Stands (Quoted.spell c) c := by
  rw [Quoted.spell]
  cases escaped : Quoted.escape? c with
  | none =>
    obtain ⟨quote, backslash⟩ := Quoted.plain_of_escape? escaped
    exact .plain (Quoted.toNat_of_escape? escaped) quote backslash
  | some e =>
    rcases Quoted.escape?_eq_some escaped with ⟨x, rfl, -, stands⟩ | ⟨m, n, hm, hn, number, rfl⟩
    · exact .escape stands
    · have unit : IsCodeUnit ['0', '0', Nat.digitChar m, Nat.digitChar n] (16 * m + n) := ⟨rfl, hex?_control hm hn⟩
      have stands := Stands.unit unit (.inl (by omega))
      rwa [← number, Char.ofNat_toNat] at stands

theorem spells_flatMap (cs : List Char) : Spells (cs.flatMap Quoted.spell) cs := by
  induction cs with
  | nil => exact .nil
  | cons c cs ih =>
    rw [List.flatMap_cons]
    exact .cons (stands_spell c) ih

/-- **The text of a string is a string**, whatever its characters are. -/
theorem quotes_encode (s : String) : Quotes (Quoted.encode s.toList) s := by
  rw [Quoted.encode_eq]
  exact .quotes (spells_flatMap s.toList)

/-- **A string is read from its text**, whatever is behind it. -/
theorem string?_encode (s : String) (rest : List Char) : string? (Quoted.encode s.toList ++ rest) = some (s, rest) :=
  (quotes_encode s).string?_append rest

/-!
## Items
-/

section Items

variable {α : Type} {item : List Char → α → Prop} {gap last : List Char}

theorem further_of_forall₂ (blank : gap.all isSpace = true) (blank' : last.all isSpace = true)
    {texts : List (List Char)} {as : List α} (h : List.Forall₂ item texts as) :
    Further item (further gap texts ++ last) as := by
  induction h with
  | nil => exact .nil blank'
  | @cons t a texts as first _ ih =>
    have more : Further item ([] ++ ',' :: (gap ++ (t ++ (further gap texts ++ last)))) (a :: as) :=
      .cons rfl blank first ih
    rw [further, List.cons_append, List.append_assoc, List.append_assoc]
    exact more

/-- Texts of items with commas between them are what may stand between brackets. -/
theorem items_between {front : List Char} (space : front.all isSpace = true) (blank : gap.all isSpace = true)
    (blank' : last.all isSpace = true) {texts : List (List Char)} {as : List α} (h : List.Forall₂ item texts as) :
    Items item (between front gap last texts) as := by
  cases h with
  | nil => exact .none rfl
  | cons first others => exact .some space first (further_of_forall₂ blank blank' others)

end Items

/-!
## The text of a value
-/

theorem denotes_numbers {gap : List Char} (blank : gap.all isSpace = true) {ns : List Scalar}
    (finite : ∀ s ∈ ns, s.isFinite = true) :
    Denotes ('[' :: (between [] gap [] (ns.map Scalar.chars) ++ [']'])) (.array (ns.map fun s => .number s.chars)) := by
  refine .array (items_between rfl blank rfl ?_)
  rw [List.forall₂_map_left_iff, List.forall₂_map_right_iff]
  exact List.forall₂_same.2 fun s hs => .number (isNumber_chars (finite s hs))

theorem denotes_elements {layout : Layout} {depth : Nat} {vs : List Value} {t : List Char}
    (h : (Emission.piece ['['] ++ writeElements layout depth true vs ++ Emission.piece [']']).Gives t)
    (each : ∀ p ∈ vs, ∀ t, (write layout depth p).Gives t → Denotes t (document p)) :
    Denotes t (.array (documents vs)) := by
  obtain ⟨texts, written, rfl⟩ := texts_of_gives_array h
  rw [documents_eq]
  refine .array (items_between rfl layout.isSpace_gap rfl ?_)
  rw [List.forall₂_map_right_iff]
  exact forall₂_imp_of_mem written fun t _ p hp ht => each p hp t ht

theorem denotes_record {layout : Layout} (spaced : layout.Spaced) {depth : Nat} {name : String}
    {fields : List (String × Value)} {t : List Char} (h : (write layout depth (.record name fields)).Gives t)
    (each : ∀ f ∈ fields, ∀ t, (write layout (depth + 1) f.2).Gives t → Denotes t (document f.2)) :
    Denotes t (document (.record name fields)) := by
  rw [write] at h
  obtain ⟨texts, last, written, hlast, rfl⟩ := texts_of_gives_object h
  have blank : last.all isSpace = true := by
    rcases hlast with rfl | rfl
    · rfl
    · exact spaced.isSpace_line depth
  rw [document, documentMembers_eq]
  refine .object (items_between (spaced.isSpace_line _) (spaced.isSpace_line _) blank ?_)
  rw [List.forall₂_map_right_iff]
  refine forall₂_imp_of_mem written fun _ _ f hf => ?_
  rintro ⟨e, he, rfl⟩
  exact .colon (quotes_encode f.1) layout.isSpace_gap layout.isSpace_gap (each f (mem_kept_iff.1 hf).1 e he)

/-- **The text of a value says its document**, in whatever layout. -/
theorem denotes_write {layout : Layout} (spaced : layout.Spaced) {v : Value} {depth : Nat} {t : List Char}
    (h : (write layout depth v).Gives t) : Denotes t (document v) := by
  induction v using Value.parts_induction generalizing depth t with
  | step v ih =>
    cases v with
    | leaf l =>
      rw [write] at h
      cases l with
      | bool b =>
        obtain rfl := gives_piece_iff.1 h
        cases b with
        | true => exact .yes
        | false => exact .no
      | number s =>
        obtain ⟨finite, rfl⟩ := gives_writeNumber_iff.1 h
        exact .number (isNumber_chars finite)
      | text s =>
        obtain rfl := gives_writeText_iff.1 h
        exact .text (quotes_encode s)
    | enum table variant =>
      obtain ⟨key, hkey, rfl⟩ := exists_key_of_gives h
      rw [document, hkey]
      exact .text (quotes_encode key)
    | record name fields => exact denotes_record spaced h fun f hf _ ht => ih f.2 (List.mem_map_of_mem hf) ht
    | tuple vs =>
      rw [write] at h
      exact denotes_elements h fun p hp _ ht => ih p hp ht
    | numbers type ns =>
      rw [write] at h
      obtain ⟨finite, rfl⟩ := gives_numbers_iff.1 h
      have same : document (.numbers type ns) =
          .array ((ns.map (Scalar.mk type)).map fun s => .number s.chars) := by
        rw [document, List.map_map]
        rfl
      rw [same]
      exact denotes_numbers layout.isSpace_gap finite
    | sequence element vs =>
      rw [write] at h
      exact denotes_elements h fun p hp _ ht => ih p hp ht
    | buffer b =>
      rw [write] at h
      obtain ⟨finite, rfl⟩ := gives_numbers_iff.1 h
      exact denotes_numbers layout.isSpace_gap finite
    | absent content =>
      rw [write] at h
      obtain rfl := gives_piece_iff.1 h
      exact .null
    | present content w =>
      rw [write] at h
      exact ih w List.mem_cons_self h

/-!
## What is refused
-/

/-- **Whether a value has a text, and why not, has nothing to do with the layout** or with the depth it is written at. -/
theorem refusal_write (layout layout' : Layout) (depth depth' : Nat) (v : Value) :
    (write layout depth v).refusal = (write layout' depth' v).refusal := by
  rw [refusal_eq, refusal_eq]

/-- The numbers of what is written are finite. -/
theorem finite_of_gives {layout : Layout} {depth : Nat} {v : Value} {t : List Char}
    (h : (write layout depth v).Gives t) : ∀ s ∈ v.scalars, s.isFinite = true := by
  cases v with
  | leaf l =>
    cases l with
    | number s =>
      rw [write] at h
      exact List.forall_mem_singleton.2 (gives_writeNumber_iff.1 h).1
    | _ => nofun
  | numbers type ns =>
    rw [write] at h
    exact (gives_numbers_iff.1 h).1
  | buffer b =>
    rw [write] at h
    exact (gives_numbers_iff.1 h).1
  | _ => nofun

/-- Where decimals are rounded once, no number of what is written is refused. -/
theorem RoundsToNearest.numeric (rounds : RoundsToNearest number) {layout : Layout} {depth : Nat} {v : Value}
    {t : List Char} (h : (write layout depth v).Gives t) : Numeric number v := by
  intro w s occurs hs
  induction occurs generalizing depth t with
  | self => exact (rounds.tells (finite_of_gives h s hs)).numeral.1
  | part hp _ ih =>
    obtain ⟨depth', t', written⟩ := exists_gives_part h hp
    exact ih written

theorem isText_of_render {layout : Layout} (spaced : layout.Spaced) {v : Value} {t : String}
    (h : render layout v = .ok t) : IsText t.toList (document v) :=
  (denotes_write spaced (render_eq_ok_iff.1 h)).isText

/-- What conforms to the grammar makes the tree of a value of its text, if no number is refused. -/
theorem Conforms.parse_of_render {parse : List Char → Option Json} (conforms : Conforms parse number) {layout : Layout}
    (spaced : layout.Spaced) {v : Value} {t : String} (h : render layout v = .ok t) (numeric : Numeric number v)
    (low : nesting v ≤ maxNesting) : parse t.toList = some (tree number v) := by
  rw [conforms.grammar (isText_of_render spaced h) (nesting_document v ▸ low), tree?_document numeric]

/-- **What JSON says does not depend on its layout.**  A value that has a text in one layout has a text in every layout
with blanks.  The text keeps to the grammar and says the document of the value and nothing else.  Whatever parser
conforms makes the tree of that document of it, unless the brackets nest too deep or a number is refused; no number is,
where decimals are rounded once. -/
theorem document_of_render {layout layout' : Layout} {v : Value} {t' : String} (accepted : render layout' v = .ok t')
    (spaced : layout.Spaced) :
    ∃ t, render layout v = .ok t ∧ IsText t.toList (document v) ∧ (∀ d, IsText t.toList d → d = document v) ∧
      ∀ parse number, Conforms parse number → nesting v ≤ maxNesting →
        parse t.toList = (document v).tree? number ∧
          (RoundsToNearest number → ∃ j, parse t.toList = some j) := by
  have admitted : (write layout 0 v).refusal = none :=
    (refusal_write layout layout' 0 0 v).trans (render_eq_ok_iff.1 accepted).1
  have written := render_of_refusal_none admitted
  have text := isText_of_render spaced written
  refine ⟨_, written, text, fun d other => other.unique text, fun parse number conforms low => ⟨?_, fun rounds => ?_⟩⟩
  · exact conforms.grammar text (nesting_document v ▸ low)
  · exact ⟨_, conforms.parse_of_render spaced written (rounds.numeric (render_eq_ok_iff.1 written)) low⟩

/-- A record whose first and last fields are absent, with escapes in a key and in a text and an empty record inside. -/
def plaque : Value := .record "Plaque" [("maker", .absent (.leaf .text)),
  ("line\n\"1\"", .leaf (.text "\x01\\é𝄞")), ("frame", .record "Frame" []),
  ("size", .tuple [.leaf (.number ⟨.float32, 0x3fc00000#32⟩), .leaf (.number ⟨.int16, -7#16⟩)]),
  ("back", .absent (.record "Plaque"))]

theorem document_of_render_plaque : ∃ t, render ⟨' ', true⟩ plaque = .ok t ∧ IsText t.toList (document plaque) ∧
    (∀ d, IsText t.toList d → d = document plaque) ∧ parse? t.toList = (document plaque).tree? readNumber? ∧
      ∃ j, parseWith? roundNumber? t.toList = some j := by
  have accepted : (write {} 0 plaque).refusal = none := by decide +kernel
  have spaced : (⟨' ', true⟩ : Layout).Spaced := by decide
  obtain ⟨t, written, text, unique, read⟩ := document_of_render (render_of_refusal_none accepted) spaced
  exact ⟨t, written, text, unique, (read _ _ conforms_parse? (by decide)).1,
    (read _ _ (conforms_parseWith? roundsToNearest_roundNumber?.readsWords) (by decide)).2
      roundsToNearest_roundNumber?⟩

/-!
## Windows
-/

end Json
end AssetRecords
