import AssetRecords.Proofs.Json.Words
/-!
# Reader — every text of the grammar is read

A parser conforms if it makes of a text the tree of what the text says, as far as its brackets do not nest too deep and
none of its numbers is refused (`Conforms`).  How it reads numbers is left open, but for whole numbers of 64 bits: some
parsers round a decimal once (`RoundsToNearest`), others do not.  The reader of this library conforms with whatever
reader of numbers it is given (`conforms_parseWith?`).
-/
namespace AssetRecords
namespace Json

open Number (ofWhole ofWhole_negative ofWhole_natural parse?_whole)

variable {α β : Type}

/-!
## Trees of documents
-/

/-- The members of an object, in the order of their keys. -/
def sorted (ms : List (String × Json)) : List (String × Json) := ms.foldl (fun ms m => insertMember m.1 m.2 ms) []

mutual

/-- The tree of a document, unless one of its numbers is refused: members stand in the order of their keys, and of equal
keys the last one counts. -/
def Document.tree? (number : List Char → Option Number) : Document → Option Json
  | .null => some .null
  | .bool b => some (.bool b)
  | .number spelling => (number spelling).map .number
  | .text s => some (.text s)
  | .array ds => (trees? number ds).map .array
  | .object ms => (members? number ms).map fun ms => .object (sorted ms)

def Document.trees? (number : List Char → Option Number) : List Document → Option (List Json)
  | [] => some []
  | d :: rest => do return (← d.tree? number) :: (← trees? number rest)

def Document.members? (number : List Char → Option Number) : List (String × Document) → Option (List (String × Json))
  | [] => some []
  | (key, d) :: rest => do return (key, ← d.tree? number) :: (← members? number rest)

end

mutual

/-- How deep the brackets of a document nest. -/
def Document.nesting : Document → Nat
  | .array ds => nestingOfAll ds + 1
  | .object ms => nestingOfMembers ms + 1
  | _ => 0

def Document.nestingOfAll : List Document → Nat
  | [] => 0
  | d :: rest => max d.nesting (nestingOfAll rest)

def Document.nestingOfMembers : List (String × Document) → Nat
  | [] => 0
  | (_, d) :: rest => max d.nesting (nestingOfMembers rest)

end

namespace Document

variable {number : List Char → Option Number}

theorem trees?_eq (ds : List Document) : trees? number ds = ds.mapM (tree? number) := by
  induction ds with
  | nil => rfl
  | cons d rest ih => rw [trees?, List.mapM_cons, ih]

theorem members?_eq (ms : List (String × Document)) :
    members? number ms = ms.mapM fun m => (m.2.tree? number).map (m.1, ·) := by
  induction ms with
  | nil => rfl
  | cons m rest ih =>
    rw [members?, List.mapM_cons, ih]
    cases m.2.tree? number <;> rfl

end Document

/-!
## Parsers
-/

/-- Whole numbers of 64 bits are read as they are. -/
def ReadsWords (number : List Char → Option Number) : Prop :=
  ∀ i : Int, -0x8000000000000000 ≤ i → i < 0x10000000000000000 → number (Decimal.whole i) = some (ofWhole i)

/-- A reader of numbers that rounds a decimal once, to the nearest double, and refuses it if that is infinite. -/
def roundNumber? (t : List Char) : Option Number := (Number.parse? t).filter Number.isJson

def RoundsToNearest (number : List Char → Option Number) : Prop := ∀ t, IsNumber t → number t = roundNumber? t

/-- A parser that keeps to RFC 8259, with this reader of numbers: it makes the tree of what a text says, unless brackets
nest deeper than it goes, or a number is refused. -/
structure Conforms (parse : List Char → Option Json) (number : List Char → Option Number) : Prop where
  grammar : ∀ {t : List Char} {d : Document}, IsText t d → d.nesting ≤ maxNesting → parse t = d.tree? number
  words : ReadsWords number

theorem readsWords_readNumber? : ReadsWords readNumber? := fun _ => readNumber?_whole

theorem roundNumber?_whole {i : Int} (low : -0x8000000000000000 ≤ i) (high : i < 0x10000000000000000) :
    roundNumber? (Decimal.whole i) = some (ofWhole i) := by
  rw [roundNumber?, parse?_whole low high, Option.filter_some, if_pos]
  rcases Int.lt_or_le i 0 with negative | natural
  · obtain ⟨n, is, number⟩ := ofWhole_negative low negative
    rw [is, Number.isJson, number]
    exact decide_eq_true negative
  · obtain ⟨n, is, -⟩ := ofWhole_natural natural high
    rw [is]
    rfl

theorem RoundsToNearest.readsWords {number : List Char → Option Number} (h : RoundsToNearest number) :
    ReadsWords number := fun _ low high => (h _ (isNumber_whole _)).trans (roundNumber?_whole low high)

/-!
## Texts that are read wherever they stand
-/

/-- In front of whatever may follow a value, a text is read as so much, or refused if it is nothing. -/
def Takes (read : Reader α) (text : List Char) (a? : Option α) : Prop :=
  ∀ rest, Follows rest → read (text ++ rest) = a?.map (·, rest)

theorem takes_number {number : List Char → Option Number} {t : List Char} (h : IsNumber t) :
    Takes (number? number) t (number t) := fun rest ends => by
  have front := takeWhile_inNumber h ends
  have behind : (t ++ rest).dropWhile inNumber = rest := by
    have both := List.takeWhile_append_dropWhile (p := inNumber) (l := t ++ rest)
    rw [front] at both
    exact List.append_cancel_left both
  rw [number?, front, behind]

/-!
## Strings
-/

theorem IsCodeUnit.codeUnit?_append {ds : List Char} {n : Nat} (h : IsCodeUnit ds n) (rest : List Char) :
    codeUnit? (ds ++ rest) = some (n, rest) := by
  obtain ⟨length, value⟩ := h
  match ds with
  | [a, b, c, d] =>
    show (Quoted.hex? [a, b, c, d]).map (·, rest) = _
    rw [value, Option.map_some]

/-- A character is read however it stands in a string. -/
theorem Stands.stringBody?_append {e : List Char} {c : Char} (h : Stands e c) (fuel : Nat) (rest : List Char) :
    stringBody? (fuel + 1) (e ++ rest) = (stringBody? fuel rest).map fun r => (c :: r.1, r.2) := by
  cases h with
  | plain printable quote backslash =>
    rw [List.singleton_append, stringBody?, if_neg (Nat.not_lt.2 printable), Option.map_eq_bind]
    · rfl
    · exact quote
    · exact fun _ h _ => backslash h
    · exact backslash
  | @escape x _ known =>
    rw [List.cons_append, List.singleton_append, stringBody?, List.head?_cons, Option.bind_some, known,
      Option.map_eq_bind]
    · rfl
    · rintro _ ⟨⟩
      rw [unescape?_u] at known
      cases known
  | @unit ds n unit whole =>
    have char : unicodeEscape? (ds ++ rest) = some (Char.ofNat n, rest) := by
      simp only [unicodeEscape?, unit.codeUnit?_append, Option.bind_eq_bind, Option.bind_some, if_pos whole,
        Option.pure_def]
    rw [List.cons_append, List.cons_append, stringBody?, char, Option.map_eq_bind]
    rfl
  | @pair ds es high low first isHigh second isLow =>
    have char : unicodeEscape? (ds ++ '\\' :: 'u' :: (es ++ rest)) =
        some (Char.ofNat (0x10000 + (high - 0xd800) * 0x400 + (low - 0xdc00)), rest) := by
      have surrogate : ¬ (high < 0xd800 ∨ 0xdfff < high) := by omega
      simp only [unicodeEscape?, first.codeUnit?_append, second.codeUnit?_append, Option.bind_eq_bind, Option.bind_some,
        if_neg surrogate, if_pos isHigh.2, if_pos isLow, Option.pure_def]
    rw [List.cons_append, List.cons_append, List.append_assoc, List.cons_append, List.cons_append, stringBody?, char,
      Option.map_eq_bind]
    rfl

theorem Spells.stringBody?_append {t cs : List Char} (h : Spells t cs) (rest : List Char) : ∀ {fuel : Nat},
    t.length < fuel → stringBody? fuel (t ++ '"' :: rest) = some (cs, rest) := by
  induction h with
  | nil =>
    intro fuel enough
    obtain ⟨fuel, rfl⟩ := Nat.exists_eq_add_one_of_ne_zero (Nat.ne_of_gt enough)
    rfl
  | cons first _ ih =>
    intro fuel enough
    obtain ⟨fuel, rfl⟩ := Nat.exists_eq_add_one_of_ne_zero (Nat.ne_of_gt (Nat.zero_lt_of_lt enough))
    obtain ⟨x, tail, rfl, -⟩ := first.head
    rw [List.length_append, List.length_cons] at enough
    rw [List.append_assoc, first.stringBody?_append, ih (by omega), Option.map_some]

/-- **Every string of the grammar is read**, whatever is behind it. -/
theorem Quotes.string?_append {t : List Char} {s : String} (h : Quotes t s) (rest : List Char) :
    string? (t ++ rest) = some (s, rest) := by
  obtain ⟨body⟩ := h
  rw [List.cons_append, List.append_assoc, List.singleton_append, string?, body.stringBody?_append, Option.map_some,
    String.ofList_toList]
  rw [List.length_append]
  omega

/-!
## Lists
-/

section Lists

variable {item : List Char → α → Prop} {read : Reader β} {f : α → Option β} {closer : Char}

theorem Further.length_le {t : List Char} {as : List α} (h : Further item t as) : as.length ≤ t.length := by
  induction h with
  | nil => exact Nat.zero_le _
  | cons =>
    simp only [List.length_append, List.length_cons]
    omega

/-- An item and those behind it are read together, and refused if one of them is. -/
theorem Further.items?_append (opens : ∀ {t a}, item t a → Opens t) (closes : closer = ']' ∨ closer = '\x7d')
    (behind : List Char) {rest : List Char} {as : List α} (h : Further item rest as) :
    (∀ a ∈ as, ∀ t, item t a → Takes read t (f a)) → ∀ {fuel : Nat} {gap t : List Char} {b? : Option β},
      gap.all isSpace = true → Opens t → Takes read t b? → as.length < fuel →
      items? read closer fuel (gap ++ (t ++ (rest ++ closer :: behind))) =
        (b?.bind fun b => (as.mapM f).map (b :: ·)).map (·, behind) := by
  have solid : isSpace closer = false := by rcases closes with rfl | rfl <;> decide
  have comma : closer ≠ ',' := by rcases closes with rfl | rfl <;> decide
  induction h with
  | @nil last blank =>
    intro _ fuel gap t b? space opens takes enough
    obtain ⟨fuel, rfl⟩ := Nat.exists_eq_add_one_of_ne_zero (Nat.ne_of_gt enough)
    have none : Further item last [] := .nil blank
    have ends := none.follows closes behind
    rw [items?, opens.skipSpace_append space, takes _ ends]
    cases b? with
    | none => rfl
    | some b =>
      simp only [Option.bind_eq_bind, Option.map_some, Option.bind_some]
      rw [skipSpace_append last blank (solid_cons solid)]
      split
      · rename_i heq
        exact absurd (List.cons.inj heq).1 comma
      · rename_i heq
        cases heq
        rw [if_pos rfl]
        rfl
      · rename_i heq
        cases heq
  | @cons before gap' t' rest' a as blank blank' first others ih =>
    intro each fuel gap t b? space opens' takes enough
    obtain ⟨fuel, rfl⟩ := Nat.exists_eq_add_one_of_ne_zero (Nat.ne_of_gt (Nat.zero_lt_of_lt enough))
    rw [List.length_cons] at enough
    have ends := (Further.cons blank blank' first others).follows closes behind
    have next := ih (fun a ha => each a (List.mem_cons_of_mem _ ha)) blank' (opens first)
      (each _ List.mem_cons_self _ first) (Nat.lt_of_succ_lt_succ enough)
    rw [items?, opens'.skipSpace_append space, takes _ ends]
    cases b? with
    | none => rfl
    | some b =>
      simp only [Option.bind_eq_bind, Option.map_some, Option.bind_some, List.append_assoc, List.cons_append]
      rw [skipSpace_append before blank (solid_cons (by decide))]
      simp only [next]
      rw [List.mapM_cons]
      cases f a with
      | none => rfl
      | some b' => cases as.mapM f <;> rfl

/-- **What stands between brackets is read**, if each of its items is. -/
theorem Items.takes (opens : ∀ {t a}, item t a → Opens t) (closes : closer = ']' ∨ closer = '\x7d') {t : List Char}
    {as : List α} (h : Items item t as) (each : ∀ a ∈ as, ∀ t, item t a → Takes read t (f a)) :
    Takes (list? read closer) (t ++ [closer]) (as.mapM f) := by
  have solid : isSpace closer = false := by rcases closes with rfl | rfl <;> decide
  intro behind _
  rw [List.append_assoc, List.singleton_append, list?]
  cases h with
  | none blank =>
    rw [skipSpace_append _ blank (solid_cons solid)]
    exact if_pos rfl
  | @some gap t rest a as blank first others =>
    have enough := others.length_le
    have fits : as.length < (gap ++ (t ++ rest) ++ closer :: behind).length + 1 := by
      simp only [List.length_append]
      omega
    have read := others.items?_append opens closes behind (fun a ha => each a (List.mem_cons_of_mem _ ha)) blank
      (opens first) (each _ List.mem_cons_self _ first) fits
    have start := (opens first).skipSpace_append blank (rest ++ closer :: behind)
    obtain ⟨c, cs, rfl, -, bracket, brace⟩ := opens first
    simp only [List.append_assoc, List.cons_append] at start read ⊢
    rw [start]
    simp only
    rw [if_neg (by rintro rfl; exact closes.elim bracket brace), read, List.mapM_cons]
    cases f a with
    | none => rfl
    | some b => cases as.mapM f <;> rfl

end Lists

theorem Member.takes {read : Reader Json} {t : List Char} {m : String × Document} {j? : Option Json}
    (h : Member Denotes t m) (each : ∀ t, Denotes t m.2 → Takes read t j?) :
    Takes (member? read) t (j?.map (m.1, ·)) := by
  intro rest ends
  obtain ⟨quoted, blank, blank', held⟩ := h
  rw [List.append_assoc, List.append_assoc, List.cons_append, List.append_assoc, member?, quoted.string?_append]
  simp only [Option.bind_eq_bind, Option.bind_some]
  rw [skipSpace_append _ blank (solid_cons (by decide))]
  simp only [held.opens.skipSpace_append blank', each _ held rest ends]
  cases j? <;> rfl

/-!
## Documents
-/

section Documents

variable {number : List Char → Option Number} {room : Nat}

theorem takes_null : Takes (value? number room) "null".toList (some .null) := fun rest _ => by
  show value? number room ('n' :: _) = _
  rw [value?]
  rfl

theorem takes_true : Takes (value? number room) "true".toList (some (.bool true)) := fun rest _ => by
  show value? number room ('t' :: _) = _
  rw [value?]
  rfl

theorem takes_false : Takes (value? number room) "false".toList (some (.bool false)) := fun rest _ => by
  show value? number room ('f' :: _) = _
  rw [value?]
  rfl

theorem takes_number_value {t : List Char} (h : IsNumber t) :
    Takes (value? number room) t ((number t).map .number) := by
  intro rest ends
  have read : number? number (t ++ rest) = (number t).map (·, rest) := takes_number h rest ends
  obtain ⟨c, cs, rfl, first⟩ := h.head
  have plain : ∀ d ∈ ['n', 't', 'f', '"', '[', '\x7b'], c ≠ d := by
    rintro d hd rfl
    rcases first with rfl | digit
    · exact absurd hd (by decide)
    · have none : ['n', 't', 'f', '"', '[', '\x7b'].all (fun d => !d.isDigit) = true := by decide
      have := List.all_eq_true.1 none c hd
      rw [digit] at this
      cases this
  rw [List.cons_append] at read ⊢
  rw [value?, read]
  · cases number (c :: cs) <;> rfl
  all_goals
    intro _ heq
    exact plain _ (by decide) (List.cons.inj heq).1

theorem takes_string_value {t : List Char} {s : String} (h : Quotes t s) :
    Takes (value? number room) t (some (.text s)) := fun rest _ => by
  have read := h.string?_append rest
  obtain ⟨-⟩ := h
  rw [List.cons_append] at read ⊢
  rw [value?, read]
  rfl

theorem takes_array {body : List Char} {js? : Option (List Json)}
    (h : Takes (list? (value? number room) ']') body js?) :
    Takes (value? number (room + 1)) ('[' :: body) (js?.map .array) := fun rest ends => by
  rw [List.cons_append, value?, h rest ends]
  cases js? <;> rfl

theorem takes_object {body : List Char} {ms? : Option (List (String × Json))}
    (h : Takes (list? (member? (value? number room)) '\x7d') body ms?) :
    Takes (value? number (room + 1)) ('\x7b' :: body) (ms?.map fun ms => .object (sorted ms)) := fun rest ends => by
  rw [List.cons_append, value?, h rest ends]
  cases ms? <;> rfl

mutual

/-- **A text is read as the tree of what it says**, wherever it ends. -/
theorem takes_document : ∀ (d : Document) {room : Nat} {t : List Char}, Denotes t d → d.nesting ≤ room →
    Takes (value? number room) t (d.tree? number)
  | .null, _, _, .null, _ => takes_null
  | .bool true, _, _, .yes, _ => takes_true
  | .bool false, _, _, .no, _ => takes_false
  | .number _, _, _, .number h, _ => takes_number_value h
  | .text _, _, _, .text h, _ => takes_string_value h
  | .array ds, 0, _, _, low => absurd low (Nat.not_succ_le_zero _)
  | .array ds, room + 1, _, .array items, low => by
    rw [Document.tree?, Document.trees?_eq]
    exact takes_array (items.takes Denotes.opens (.inl rfl) (takes_documents ds (Nat.le_of_succ_le_succ low)))
  | .object ms, 0, _, _, low => absurd low (Nat.not_succ_le_zero _)
  | .object ms, room + 1, _, .object items, low => by
    rw [Document.tree?, Document.members?_eq]
    refine takes_object (items.takes Member.opens (.inr rfl) fun m hm t h => h.takes ?_)
    exact takes_members ms (Nat.le_of_succ_le_succ low) m hm

theorem takes_documents : ∀ (ds : List Document) {room : Nat}, Document.nestingOfAll ds ≤ room →
    ∀ d ∈ ds, ∀ t, Denotes t d → Takes (value? number room) t (d.tree? number)
  | [], _, _ => nofun
  | d :: rest, _, low => by
    rw [Document.nestingOfAll, Nat.max_le] at low
    exact List.forall_mem_cons.2 ⟨fun t h => takes_document d h low.1, takes_documents rest low.2⟩

theorem takes_members : ∀ (ms : List (String × Document)) {room : Nat}, Document.nestingOfMembers ms ≤ room →
    ∀ m ∈ ms, ∀ t, Denotes t m.2 → Takes (value? number room) t (m.2.tree? number)
  | [], _, _ => nofun
  | (_, d) :: rest, _, low => by
    rw [Document.nestingOfMembers, Nat.max_le] at low
    exact List.forall_mem_cons.2 ⟨fun t h => takes_document d h low.1, takes_members rest low.2⟩

end

end Documents

/-- **The reader conforms**, whatever reads the numbers, if that reads whole numbers of 64 bits. -/
theorem conforms_parseWith? {number : List Char → Option Number} (words : ReadsWords number) :
    Conforms (parseWith? number) number := by
  refine ⟨fun {t d} text low => ?_, words⟩
  obtain ⟨blank, blank', value⟩ := text
  rename_i before behind t
  have ends : Follows behind := by simpa using follows_blanks blank' follows_nil
  have none : skipSpace behind = [] := List.dropWhile_eq_nil_iff.2 (List.all_eq_true.1 blank')
  rw [parseWith?, value.opens.skipSpace_append blank, takes_document d value low behind ends]
  cases d.tree? number with
  | none => rfl
  | some j =>
    simp only [Option.map_some, Option.bind_eq_bind, Option.bind_some, none]
    rfl

theorem conforms_parse? : Conforms parse? readNumber? := conforms_parseWith? readsWords_readNumber?

end Json
end AssetRecords
