import AssetRecords.Json.Reader
import Mathlib.Data.List.Basic
import Mathlib.Data.List.TakeWhile
/-!
# Grammar — what a JSON text says

The grammar of RFC 8259 as a relation between texts and documents (`Denotes`), apart from any reader and any writer.  A
document keeps what a text says and nothing of its layout: numbers as they are spelled, and members in their order,
whether their keys differ or not.  A text says one thing only (`IsText.unique`): where a document ends is told by what
stands in front of it and by the first character behind it.
-/
namespace AssetRecords
namespace Json

/-- What a JSON text says. -/
inductive Document where
  | null
  | bool (value : Bool)
  | number (spelling : List Char)
  | text (value : String)
  | array (elements : List Document)
  | object (members : List (String × Document))

/-!
## The grammar
-/

structure Digits (cs : List Char) : Prop where
  some : cs ≠ []
  all : ∀ c ∈ cs, c.isDigit = true

/-- The digits before a point: a single zero, or digits that begin with another. -/
structure IsWhole (cs : List Char) : Prop where
  digits : Digits cs
  leading : cs.head? = some '0' → cs = ['0']

inductive IsFraction : List Char → Prop where
  | none : IsFraction []
  | point {ds : List Char} (digits : Digits ds) : IsFraction ('.' :: ds)

inductive IsExponent : List Char → Prop where
  | none : IsExponent []
  | mark {c : Char} {sign ds : List Char} (hc : c = 'e' ∨ c = 'E') (hsign : sign = [] ∨ sign = ['-'] ∨ sign = ['+'])
      (digits : Digits ds) : IsExponent (c :: (sign ++ ds))

inductive IsNumber : List Char → Prop where
  | parts {sign whole fraction exponent : List Char} (hsign : sign = [] ∨ sign = ['-']) (hwhole : IsWhole whole)
      (hfraction : IsFraction fraction) (hexponent : IsExponent exponent) :
      IsNumber (sign ++ (whole ++ (fraction ++ exponent)))

/-- Four hexadecimal digits. -/
def IsCodeUnit (ds : List Char) (n : Nat) : Prop := ds.length = 4 ∧ Quoted.hex? ds = some n

/-- How a character may stand in a string: for itself, as an escape of two characters, or as one code unit or two. -/
inductive Stands : List Char → Char → Prop where
  | plain {c : Char} (printable : 0x20 ≤ c.toNat) (quote : c ≠ '"') (backslash : c ≠ '\\') : Stands [c] c
  | escape {x c : Char} (known : Quoted.unescape? x = some c) : Stands ['\\', x] c
  | unit {ds : List Char} {n : Nat} (unit : IsCodeUnit ds n) (whole : n < 0xd800 ∨ 0xdfff < n) :
      Stands ('\\' :: 'u' :: ds) (Char.ofNat n)
  | pair {ds es : List Char} {high low : Nat} (first : IsCodeUnit ds high) (isHigh : 0xd800 ≤ high ∧ high < 0xdc00)
      (second : IsCodeUnit es low) (isLow : 0xdc00 ≤ low ∧ low ≤ 0xdfff) :
      Stands ('\\' :: 'u' :: (ds ++ '\\' :: 'u' :: es))
        (Char.ofNat (0x10000 + (high - 0xd800) * 0x400 + (low - 0xdc00)))

inductive Spells : List Char → List Char → Prop where
  | nil : Spells [] []
  | cons {e t : List Char} {c : Char} {cs : List Char} (first : Stands e c) (rest : Spells t cs) :
      Spells (e ++ t) (c :: cs)

inductive Quotes : List Char → String → Prop where
  | quotes {t : List Char} {s : String} (body : Spells t s.toList) : Quotes ('"' :: (t ++ ['"'])) s

section Items

variable {α : Type}

/-- What follows the first item up to the closing bracket: items, each behind a comma, with blanks around the commas. -/
inductive Further (item : List Char → α → Prop) : List Char → List α → Prop where
  | nil {gap : List Char} (blank : gap.all isSpace = true) : Further item gap []
  | cons {before behind t rest : List Char} {a : α} {as : List α} (blank : before.all isSpace = true)
      (blank' : behind.all isSpace = true) (first : item t a) (others : Further item rest as) :
      Further item (before ++ ',' :: (behind ++ (t ++ rest))) (a :: as)

/-- What stands between brackets. -/
inductive Items (item : List Char → α → Prop) : List Char → List α → Prop where
  | none {gap : List Char} (blank : gap.all isSpace = true) : Items item gap []
  | some {gap t rest : List Char} {a : α} {as : List α} (blank : gap.all isSpace = true) (first : item t a)
      (others : Further item rest as) : Items item (gap ++ (t ++ rest)) (a :: as)

end Items

inductive Member (value : List Char → Document → Prop) : List Char → String × Document → Prop where
  | colon {k before behind t : List Char} {key : String} {d : Document} (quoted : Quotes k key)
      (blank : before.all isSpace = true) (blank' : behind.all isSpace = true) (held : value t d) :
      Member value (k ++ (before ++ ':' :: (behind ++ t))) (key, d)

/-- A text that begins and ends with a value denotes a document. -/
inductive Denotes : List Char → Document → Prop where
  | null : Denotes "null".toList .null
  | yes : Denotes "true".toList (.bool true)
  | no : Denotes "false".toList (.bool false)
  | number {t : List Char} (number : IsNumber t) : Denotes t (.number t)
  | text {t : List Char} {s : String} (quoted : Quotes t s) : Denotes t (.text s)
  | array {t : List Char} {ds : List Document} (items : Items Denotes t ds) : Denotes ('[' :: (t ++ [']'])) (.array ds)
  | object {t : List Char} {ms : List (String × Document)} (items : Items (Member Denotes) t ms) :
      Denotes ('\x7b' :: (t ++ ['\x7d'])) (.object ms)

/-- A JSON text: a value with blanks around it. -/
inductive IsText : List Char → Document → Prop where
  | blanks {before behind t : List Char} {d : Document} (blank : before.all isSpace = true)
      (blank' : behind.all isSpace = true) (value : Denotes t d) : IsText (before ++ (t ++ behind)) d

theorem Denotes.isText {t : List Char} {d : Document} (h : Denotes t d) : IsText t d := by
  have bare : IsText ([] ++ (t ++ [])) d := .blanks rfl rfl h
  rwa [List.nil_append, List.append_nil] at bare

/-!
## Blanks
-/

theorem skipSpace_append (gap : List Char) {rest : List Char} (blank : gap.all isSpace = true)
    (solid : ∀ c, rest.head? = some c → isSpace c = false) : skipSpace (gap ++ rest) = rest := by
  rw [skipSpace, List.dropWhile_append_of_pos (List.all_eq_true.1 blank)]
  cases rest with
  | nil => rfl
  | cons c rest => rw [List.dropWhile_cons_of_neg (by rw [solid c rfl]; decide)]

/-- The beginning of an item: what is neither skipped nor taken for the end of a list. -/
def Opens (text : List Char) : Prop := ∃ c rest, text = c :: rest ∧ isSpace c = false ∧ c ≠ ']' ∧ c ≠ '\x7d'

theorem Opens.skipSpace_append {text gap : List Char} (h : Opens text) (blank : gap.all isSpace = true)
    (rest : List Char) : skipSpace (gap ++ (text ++ rest)) = text ++ rest := by
  obtain ⟨c, cs, rfl, solid, -⟩ := h
  exact Json.skipSpace_append gap blank (by rintro _ ⟨⟩; exact solid)

/-!
## Where a document ends
-/

/-- A character that may stand behind a value. -/
def follows (c : Char) : Bool := isSpace c || [',', ']', '\x7d'].contains c

/-- Behind a value: nothing, or a character that may stand there. -/
def Follows (rest : List Char) : Prop := ∀ c, rest.head? = some c → follows c = true

theorem follows_nil : Follows [] := nofun

theorem follows_cons {c : Char} {rest : List Char} (h : follows c = true) : Follows (c :: rest) := by
  rintro _ ⟨⟩
  exact h

theorem follows_blanks {gap rest : List Char} (blank : gap.all isSpace = true) (h : Follows rest) :
    Follows (gap ++ rest) := by
  cases gap with
  | nil => exact h
  | cons c gap =>
    have space : isSpace c = true := List.all_eq_true.1 blank c List.mem_cons_self
    exact follows_cons (by rw [follows, space, Bool.true_or])

/-- No other item than this one, and no other part of a text, begins a text that begins with it. -/
def Determined {α : Type} (item : List Char → α → Prop) (a : α) : Prop :=
  ∀ {t t' r r' : List Char} {a' : α}, item t a → item t' a' → Follows r → Follows r' → t ++ r = t' ++ r' →
    a = a' ∧ r = r'

/-- Behind equal texts with blanks before them the same is left. -/
theorem eq_of_blanks {gap gap' x x' : List Char} (blank : gap.all isSpace = true) (blank' : gap'.all isSpace = true)
    (solid : ∀ c, x.head? = some c → isSpace c = false) (solid' : ∀ c, x'.head? = some c → isSpace c = false)
    (same : gap ++ x = gap' ++ x') : x = x' := by
  rw [← skipSpace_append gap blank solid, same, skipSpace_append gap' blank' solid']

theorem solid_cons {c : Char} {rest : List Char} (h : isSpace c = false) :
    ∀ d, (c :: rest).head? = some d → isSpace d = false := by
  rintro _ ⟨⟩
  exact h

theorem Opens.solid {t rest : List Char} (h : Opens t) : ∀ c, (t ++ rest).head? = some c → isSpace c = false := by
  obtain ⟨c, cs, rfl, solid, -⟩ := h
  exact solid_cons solid

/-!
## Numbers
-/

theorem Digits.inNumber {cs : List Char} (h : Digits cs) : ∀ c ∈ cs, inNumber c = true := fun c hc => by
  rw [Json.inNumber, h.all c hc, Bool.true_or]

theorem IsNumber.inNumber {t : List Char} (h : IsNumber t) : ∀ c ∈ t, inNumber c = true := by
  obtain ⟨hsign, whole, hfraction, hexponent⟩ := h
  rename_i sign digits fraction exponent
  have signs : ∀ cs : List Char, cs = [] ∨ cs = ['-'] ∨ cs = ['+'] → ∀ c ∈ cs, Json.inNumber c = true := by
    rintro _ (rfl | rfl | rfl)
    · nofun
    · exact List.forall_mem_singleton.2 (by decide)
    · exact List.forall_mem_singleton.2 (by decide)
  have fractions : ∀ c ∈ fraction, Json.inNumber c = true := by
    cases hfraction with
    | none => nofun
    | point digits => exact List.forall_mem_cons.2 ⟨by decide, digits.inNumber⟩
  have exponents : ∀ c ∈ exponent, Json.inNumber c = true := by
    cases hexponent with
    | none => nofun
    | mark mark hsign digits =>
      refine List.forall_mem_cons.2 ⟨?_, List.forall_mem_append.2 ⟨signs _ hsign, digits.inNumber⟩⟩
      rcases mark with rfl | rfl <;> decide
  exact List.forall_mem_append.2 ⟨signs sign (hsign.imp_right .inl), List.forall_mem_append.2
    ⟨whole.digits.inNumber, List.forall_mem_append.2 ⟨fractions, exponents⟩⟩⟩

/-- A number is as long as the characters go on that numbers are made of. -/
theorem takeWhile_inNumber {t rest : List Char} (h : IsNumber t) (ends : Follows rest) :
    (t ++ rest).takeWhile inNumber = t := by
  rw [List.takeWhile_append_of_pos h.inNumber]
  cases rest with
  | nil => rw [List.takeWhile_nil, List.append_nil]
  | cons c rest =>
    have behind := ends c rfl
    have other : inNumber c = false := by
      rw [follows, Bool.or_eq_true, isSpace] at behind
      simp only [Bool.or_eq_true, beq_iff_eq, List.contains_iff_mem, List.mem_cons, List.not_mem_nil, or_false] at behind
      rcases behind with (((rfl | rfl) | rfl) | rfl) | rfl | rfl | rfl <;> decide
    rw [List.takeWhile_cons_of_neg (by rw [other]; decide), List.append_nil]

/-!
## Strings
-/

theorem IsCodeUnit.unique {ds es r r' : List Char} {m n : Nat} (h : IsCodeUnit ds m) (h' : IsCodeUnit es n)
    (same : ds ++ r = es ++ r') : m = n ∧ r = r' := by
  obtain ⟨rfl, rest⟩ := List.append_inj same (h.1.trans h'.1.symm)
  exact ⟨Option.some.inj (h.2.symm.trans h'.2), rest⟩

theorem Stands.head {e : List Char} {c : Char} (h : Stands e c) : ∃ x tail, e = x :: tail ∧ x ≠ '"' := by
  cases h with
  | plain _ quote _ => exact ⟨c, [], rfl, quote⟩
  | escape => exact ⟨_, _, rfl, by decide⟩
  | unit => exact ⟨_, _, rfl, by decide⟩
  | pair => exact ⟨_, _, rfl, by decide⟩

/-- The letter before code units is no escape of its own. -/
theorem unescape?_u : Quoted.unescape? 'u' = none := rfl

theorem Stands.unique {e e' r r' : List Char} {c c' : Char} (h : Stands e c) (h' : Stands e' c')
    (same : e ++ r = e' ++ r') : c = c' ∧ r = r' := by
  cases h with
  | plain _ _ backslash =>
    cases h' with
    | plain => exact List.cons.inj same
    | _ => exact absurd (List.cons.inj same).1 backslash
  | escape known =>
    cases h' with
    | plain _ _ backslash => exact absurd (List.cons.inj same).1.symm backslash
    | escape known' =>
      obtain ⟨rfl, rest⟩ := List.cons.inj (List.cons.inj same).2
      exact ⟨Option.some.inj (known.symm.trans known'), rest⟩
    | _ =>
      obtain ⟨rfl, -⟩ := List.cons.inj (List.cons.inj same).2
      rw [unescape?_u] at known
      cases known
  | unit unit whole =>
    cases h' with
    | plain _ _ backslash => exact absurd (List.cons.inj same).1.symm backslash
    | escape known =>
      obtain ⟨rfl, -⟩ := List.cons.inj (List.cons.inj same).2
      rw [unescape?_u] at known
      cases known
    | unit unit' =>
      obtain ⟨rfl, rest⟩ := unit.unique unit' (List.cons.inj (List.cons.inj same).2).2
      exact ⟨rfl, rest⟩
    | pair first isHigh =>
      -- a high surrogate is no character by itself
      simp only [List.cons_append, List.cons.injEq, true_and, List.append_assoc] at same
      obtain ⟨rfl, -⟩ := unit.unique first same
      omega
  | pair first isHigh second =>
    cases h' with
    | plain _ _ backslash => exact absurd (List.cons.inj same).1.symm backslash
    | escape known =>
      obtain ⟨rfl, -⟩ := List.cons.inj (List.cons.inj same).2
      rw [unescape?_u] at known
      cases known
    | unit unit whole =>
      simp only [List.cons_append, List.cons.injEq, true_and, List.append_assoc] at same
      obtain ⟨rfl, -⟩ := first.unique unit same
      omega
    | pair first' _ second' =>
      simp only [List.cons_append, List.cons.injEq, true_and, List.append_assoc] at same
      obtain ⟨rfl, behind⟩ := first.unique first' same
      simp only [List.cons.injEq, true_and] at behind
      obtain ⟨rfl, rest⟩ := second.unique second' behind
      exact ⟨rfl, rest⟩

theorem Spells.unique {t cs : List Char} (h : Spells t cs) : ∀ {t' cs' r r' : List Char}, Spells t' cs' →
    t ++ '"' :: r = t' ++ '"' :: r' → cs = cs' ∧ r = r' := by
  induction h with
  | nil =>
    intro t' cs' r r' h' same
    cases h' with
    | nil => exact ⟨rfl, (List.cons.inj same).2⟩
    | cons first =>
      obtain ⟨x, tail, rfl, quote⟩ := first.head
      exact absurd (List.cons.inj same).1.symm quote
  | cons first _ ih =>
    intro t' cs' r r' h' same
    cases h' with
    | nil =>
      obtain ⟨x, tail, rfl, quote⟩ := first.head
      exact absurd (List.cons.inj same).1 quote
    | cons first' rest' =>
      rw [List.append_assoc, List.append_assoc] at same
      obtain ⟨rfl, behind⟩ := first.unique first' same
      obtain ⟨rfl, rest⟩ := ih rest' behind
      exact ⟨rfl, rest⟩

theorem Quotes.unique {t t' r r' : List Char} {s s' : String} (h : Quotes t s) (h' : Quotes t' s')
    (same : t ++ r = t' ++ r') : s = s' ∧ r = r' := by
  obtain ⟨body⟩ := h
  obtain ⟨body'⟩ := h'
  rw [List.cons_append, List.cons_append, List.append_assoc, List.append_assoc] at same
  obtain ⟨chars, rest⟩ := body.unique body' (List.cons.inj same).2
  exact ⟨String.toList_inj.1 chars, rest⟩

theorem Quotes.opens {t : List Char} {s : String} (h : Quotes t s) : Opens t := by
  obtain ⟨-⟩ := h
  exact ⟨_, _, rfl, by decide, by decide, by decide⟩

/-!
## Items
-/

section Items

variable {α : Type} {item : List Char → α → Prop} {closer : Char}

theorem Further.follows {t : List Char} {as : List α} (h : Further item t as) (closes : closer = ']' ∨ closer = '\x7d')
    (r : List Char) : Follows (t ++ closer :: r) := by
  have last : Follows (closer :: r) := follows_cons (by rcases closes with rfl | rfl <;> decide)
  cases h with
  | nil blank => exact follows_blanks blank last
  | cons blank =>
    rw [List.append_assoc]
    exact follows_blanks blank (follows_cons (by decide))

theorem Further.unique (opens : ∀ {t a}, item t a → Opens t) (closes : closer = ']' ∨ closer = '\x7d')
    {t : List Char} {as : List α} (h : Further item t as) : (∀ a ∈ as, Determined item a) →
      ∀ {t' r r' : List Char} {as' : List α}, Further item t' as' → t ++ closer :: r = t' ++ closer :: r' →
        as = as' ∧ r = r' := by
  have solid : isSpace closer = false := by rcases closes with rfl | rfl <;> decide
  have comma : closer ≠ ',' := by rcases closes with rfl | rfl <;> decide
  have commaSolid : isSpace ',' = false := by decide
  induction h with
  | nil blank =>
    intro _ t' r r' as' h' same
    cases h' with
    | nil blank' =>
      have behind := eq_of_blanks blank blank' (solid_cons solid) (solid_cons solid) same
      exact ⟨rfl, (List.cons.inj behind).2⟩
    | cons blank' =>
      rw [List.append_assoc] at same
      have behind := eq_of_blanks blank blank' (solid_cons solid) (solid_cons commaSolid) same
      exact absurd (List.cons.inj behind).1 comma
  | cons blank gap first rest ih =>
    intro each t' r r' as' h' same
    simp only [List.append_assoc, List.cons_append] at same
    cases h' with
    | nil blank' =>
      have behind := eq_of_blanks blank blank' (solid_cons commaSolid) (solid_cons solid) same
      exact absurd (List.cons.inj behind).1.symm comma
    | cons blank' gap' first' rest' =>
      simp only [List.append_assoc, List.cons_append] at same
      have behind := (List.cons.inj (eq_of_blanks blank blank' (solid_cons commaSolid) (solid_cons commaSolid) same)).2
      have items := eq_of_blanks gap gap' (opens first).solid (opens first').solid behind
      obtain ⟨rfl, others⟩ := each _ List.mem_cons_self first first' (rest.follows closes r) (rest'.follows closes r') items
      obtain ⟨rfl, last⟩ := ih (fun a ha => each a (List.mem_cons_of_mem _ ha)) rest' others
      exact ⟨rfl, last⟩

/-- What stands between brackets is told by its items. -/
theorem Items.unique (opens : ∀ {t a}, item t a → Opens t) (closes : closer = ']' ∨ closer = '\x7d')
    {t t' r r' : List Char} {as as' : List α} (each : ∀ a ∈ as, Determined item a) (h : Items item t as)
    (h' : Items item t' as') (same : t ++ closer :: r = t' ++ closer :: r') : as = as' ∧ r = r' := by
  have solid : isSpace closer = false := by rcases closes with rfl | rfl <;> decide
  have other : ∀ {x rest}, Opens x → closer :: r ≠ x ++ rest ∧ closer :: r' ≠ x ++ rest := by
    rintro _ rest ⟨c, cs, rfl, -, bracket, brace⟩
    refine ⟨fun h => ?_, fun h => ?_⟩ <;>
    · obtain rfl := (List.cons.inj h).1
      exact closes.elim bracket brace
  cases h with
  | none blank =>
    cases h' with
    | none blank' =>
      have behind := eq_of_blanks blank blank' (solid_cons solid) (solid_cons solid) same
      exact ⟨rfl, (List.cons.inj behind).2⟩
    | some blank' first' =>
      simp only [List.append_assoc] at same
      exact absurd (eq_of_blanks blank blank' (solid_cons solid) (opens first').solid same) (other (opens first')).1
  | some blank first rest =>
    simp only [List.append_assoc] at same
    cases h' with
    | none blank' =>
      have behind := eq_of_blanks blank blank' (opens first).solid (solid_cons solid) same
      exact absurd behind.symm (other (opens first)).2
    | some blank' first' rest' =>
      simp only [List.append_assoc] at same
      have items := eq_of_blanks blank blank' (opens first).solid (opens first').solid same
      obtain ⟨rfl, others⟩ := each _ List.mem_cons_self first first' (rest.follows closes r) (rest'.follows closes r') items
      obtain ⟨rfl, last⟩ :=
        rest.unique opens closes (fun a ha => each a (List.mem_cons_of_mem _ ha)) rest' others
      exact ⟨rfl, last⟩

end Items

theorem Member.opens {value : List Char → Document → Prop} {t : List Char} {m : String × Document}
    (h : Member value t m) : Opens t := by
  obtain ⟨key, -⟩ := h
  obtain ⟨c, cs, rfl, opens⟩ := key.opens
  exact ⟨c, _, rfl, opens⟩

/-!
## Documents
-/

/-- The forms that a document has. -/
inductive Form where
  | null
  | true
  | false
  | number
  | text
  | array
  | object

def Document.form : Document → Form
  | null => .null
  | bool b => if b then .true else .false
  | number _ => .number
  | text _ => .text
  | array _ => .array
  | object _ => .object

/-- The form that a first character announces. -/
def formOf : Char → Form
  | 'n' => .null
  | 't' => .true
  | 'f' => .false
  | '"' => .text
  | '[' => .array
  | '\x7b' => .object
  | _ => .number

theorem formOf_digit {c : Char} (h : c.isDigit = true) : formOf c = .number := by
  unfold formOf
  split <;> first | rfl | exact absurd h (by decide)

theorem IsNumber.head {t : List Char} (h : IsNumber t) : ∃ c cs, t = c :: cs ∧ (c = '-' ∨ c.isDigit = true) := by
  obtain ⟨hsign, whole, -, -⟩ := h
  rcases hsign with rfl | rfl
  · obtain ⟨c, cs, rfl⟩ := List.exists_cons_of_ne_nil whole.digits.some
    exact ⟨c, _, rfl, .inr (whole.digits.all c List.mem_cons_self)⟩
  · exact ⟨'-', _, rfl, .inl rfl⟩

theorem Denotes.head {t : List Char} {d : Document} (h : Denotes t d) :
    ∃ c cs, t = c :: cs ∧ formOf c = d.form ∧ isSpace c = false ∧ c ≠ ']' ∧ c ≠ '\x7d' := by
  cases h with
  | number number =>
    obtain ⟨c, cs, rfl, sign | digit⟩ := number.head
    · subst sign
      exact ⟨_, _, rfl, rfl, by decide, by decide, by decide⟩
    · refine ⟨c, cs, rfl, formOf_digit digit, ?_, ?_, ?_⟩
      · rw [Bool.eq_false_iff]
        intro space
        simp only [isSpace, Bool.or_eq_true, beq_iff_eq] at space
        rcases space with ((rfl | rfl) | rfl) | rfl <;> exact absurd digit (by decide)
      · rintro rfl
        exact absurd digit (by decide)
      · rintro rfl
        exact absurd digit (by decide)
  | text quoted =>
    obtain ⟨-⟩ := quoted
    exact ⟨_, _, rfl, rfl, by decide, by decide, by decide⟩
  | _ => exact ⟨_, _, rfl, rfl, by decide, by decide, by decide⟩

theorem Denotes.opens {t : List Char} {d : Document} (h : Denotes t d) : Opens t := by
  obtain ⟨c, cs, text, -, opens⟩ := h.head
  exact ⟨c, cs, text, opens⟩

theorem Denotes.form_eq {t t' r r' : List Char} {d d' : Document} (h : Denotes t d) (h' : Denotes t' d')
    (same : t ++ r = t' ++ r') : d.form = d'.form := by
  obtain ⟨c, cs, rfl, form, -⟩ := h.head
  obtain ⟨c', cs', rfl, form', -⟩ := h'.head
  rw [← form, ← form', (List.cons.inj same).1]

theorem determined_member {m : String × Document} (h : Determined Denotes m.2) : Determined (Member Denotes) m := by
  intro t t' r r' m' first first' follows follows' same
  obtain ⟨key, blank, gap, value⟩ := first
  obtain ⟨key', blank', gap', value'⟩ := first'
  simp only [List.append_assoc, List.cons_append] at same
  obtain ⟨rfl, behind⟩ := key.unique key' same
  have colon : isSpace ':' = false := by decide
  have behind := (List.cons.inj (eq_of_blanks blank blank' (solid_cons colon) (solid_cons colon) behind)).2
  have values := eq_of_blanks gap gap' value.opens.solid value'.opens.solid behind
  obtain ⟨same, rest⟩ := h value value' follows follows' values
  exact ⟨congrArg (Prod.mk _) same, rest⟩

theorem determined_array {ds : List Document} (each : ∀ d ∈ ds, Determined Denotes d) :
    Determined Denotes (.array ds) := by
  intro t t' r r' d' h h' _ _ same
  have form := h.form_eq h' same
  cases h with
  | array items =>
    cases h' with
    | array items' =>
      rw [List.cons_append, List.cons_append, List.append_assoc, List.append_assoc] at same
      obtain ⟨rfl, rest⟩ := items.unique Denotes.opens (.inl rfl) each items' (List.cons.inj same).2
      exact ⟨rfl, rest⟩
    | _ => cases form

theorem determined_object {ms : List (String × Document)} (each : ∀ m ∈ ms, Determined Denotes m.2) :
    Determined Denotes (.object ms) := by
  intro t t' r r' d' h h' _ _ same
  have form := h.form_eq h' same
  cases h with
  | object items =>
    cases h' with
    | object items' =>
      rw [List.cons_append, List.cons_append, List.append_assoc, List.append_assoc] at same
      obtain ⟨rfl, rest⟩ := items.unique Member.opens (.inr rfl) (fun m hm => determined_member (each m hm)) items'
        (List.cons.inj same).2
      exact ⟨rfl, rest⟩
    | _ => cases form

theorem determined_number (spelling : List Char) : Determined Denotes (.number spelling) := by
  intro t t' r r' d' h h' follows follows' same
  have form := h.form_eq h' same
  cases h with
  | number number =>
    cases h' with
    | number number' =>
      have spellings := congrArg (List.takeWhile inNumber) same
      rw [takeWhile_inNumber number follows, takeWhile_inNumber number' follows'] at spellings
      subst spellings
      exact ⟨rfl, List.append_cancel_left same⟩
    | _ => cases form

theorem determined_text (s : String) : Determined Denotes (.text s) := by
  intro t t' r r' d' h h' _ _ same
  have form := h.form_eq h' same
  cases h with
  | text quoted =>
    cases h' with
    | text quoted' =>
      obtain ⟨rfl, rest⟩ := quoted.unique quoted' same
      exact ⟨rfl, rest⟩
    | _ => cases form

/-- What is one word is told by its first letter. -/
theorem determined_word {d : Document} (word : ∀ d', d.form = d'.form → d = d')
    (one : ∀ {t t'}, Denotes t d → Denotes t' d → t = t') : Determined Denotes d := by
  intro t t' r r' d' h h' _ _ same
  obtain rfl := word d' (h.form_eq h' same)
  obtain rfl := one h h'
  exact ⟨rfl, List.append_cancel_left same⟩

mutual

/-- **A document is told by the text that begins with it**, whatever follows. -/
theorem determined : ∀ d : Document, Determined Denotes d
  | .null => determined_word (fun d' form => by
      cases d' with
      | null => rfl
      | bool b => cases b <;> cases form
      | _ => cases form) (by rintro _ _ ⟨⟩ ⟨⟩; rfl)
  | .bool b => determined_word (fun d' form => by
      cases d' with
      | bool b' => cases b <;> cases b' <;> first | rfl | cases form
      | _ => cases b <;> cases form) (by cases b <;> rintro _ _ ⟨⟩ ⟨⟩ <;> rfl)
  | .number spelling => determined_number spelling
  | .text s => determined_text s
  | .array ds => determined_array (determined_elements ds)
  | .object ms => determined_object (determined_members ms)

theorem determined_elements : ∀ ds : List Document, ∀ d ∈ ds, Determined Denotes d
  | d :: rest => List.forall_mem_cons.2 ⟨determined d, determined_elements rest⟩
  | [] => nofun

theorem determined_members : ∀ ms : List (String × Document), ∀ m ∈ ms, Determined Denotes m.2
  | (_, d) :: rest => List.forall_mem_cons.2 ⟨determined d, determined_members rest⟩
  | [] => nofun

end

/-- **A text says one thing only.** -/
theorem IsText.unique {t : List Char} {d d' : Document} (h : IsText t d) (h' : IsText t d') : d = d' := by
  generalize same : t = t' at h'
  obtain ⟨before, behind, value⟩ := h
  obtain ⟨before', behind', value'⟩ := h'
  have values := eq_of_blanks before before' value.opens.solid value'.opens.solid same
  refine (determined d value value' ?_ ?_ values).1
  · simpa using follows_blanks behind follows_nil
  · simpa using follows_blanks behind' follows_nil

end Json
end AssetRecords
