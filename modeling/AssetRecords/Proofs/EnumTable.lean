import AssetRecords.Proofs.Outcome
import AssetRecords.Schema.EnumTable
import Mathlib.Data.List.Nodup
/-!
# EnumTable — a variant and its place in the table

A variant is found again at the first position that lists it, in whatever table; a position is found again from its
variant if no variant is listed twice.  Where neither a variant nor a key is listed twice, a search finds the row that
is listed, and no other.  A variant without a row has neither a key nor a position, and both searches say so alike
(`error?_key`, `error?_ordinal`).  Where rows repeat a variant or a key, the first ones count (`first_rows_count`).
-/
namespace AssetRecords
namespace EnumTable

variable {t : EnumTable} {variant ordinal : Nat}

theorem ordinal_eq_ok_iff : t.ordinal variant = .ok ordinal ↔ t.ordinalOf? variant = some ordinal := by
  unfold EnumTable.ordinal
  cases t.ordinalOf? variant with
  | none => exact ⟨nofun, nofun⟩
  | some n => rw [Except.ok.injEq, Option.some.injEq]

theorem ofOrdinal_eq_ok_iff : t.ofOrdinal ordinal = .ok variant ↔ t.byOrdinal? ordinal = some variant := by
  unfold EnumTable.ofOrdinal
  cases t.byOrdinal? ordinal with
  | none => exact ⟨nofun, nofun⟩
  | some n => rw [Except.ok.injEq, Option.some.injEq]

/-- **A variant is found again at its position**, in whatever table. -/
theorem byOrdinal?_of_ordinalOf? (h : t.ordinalOf? variant = some ordinal) : t.byOrdinal? ordinal = some variant := by
  obtain ⟨inside, found, -⟩ := List.findIdx?_eq_some_iff_getElem.1 h
  rw [byOrdinal?, List.getElem?_eq_getElem inside, Option.map_some, eq_of_beq found]

/-- In a table that lists no variant twice a position is found again from its variant. -/
theorem ordinalOf?_of_byOrdinal? (distinct : (t.rows.map (·.1)).Nodup) (h : t.byOrdinal? ordinal = some variant) :
    t.ordinalOf? variant = some ordinal := by
  obtain ⟨row, hrow, rfl⟩ := Option.map_eq_some_iff.1 h
  obtain ⟨inside, rfl⟩ := List.getElem?_eq_some_iff.1 hrow
  refine List.findIdx?_eq_some_iff_getElem.2 ⟨inside, beq_self_eq_true _, fun j hj same => ?_⟩
  have differ := List.pairwise_iff_getElem.1 (List.pairwise_map.1 distinct) j ordinal (Nat.lt_trans hj inside) inside hj
  exact differ (eq_of_beq same)

/-- Where a list has no two elements of one kind, a search for the kind of an element finds the element. -/
theorem find?_eq_of_mem {α β : Type} [BEq β] [LawfulBEq β] {f : α → β} {as : List α} {a : α}
    (distinct : (as.map f).Nodup) (h : a ∈ as) : as.find? (fun b => f b == f a) = some a := by
  cases found : as.find? (fun b => f b == f a) with
  | none => exact absurd (beq_self_eq_true _) (List.find?_eq_none.1 found a h)
  | some b =>
    have same := List.find?_some found
    rw [List.inj_on_of_nodup_map distinct (List.mem_of_find?_eq_some found) h (eq_of_beq same)]

theorem keyOf?_of_mem {key : String} (distinct : (t.rows.map (·.1)).Nodup) (h : (variant, key) ∈ t.rows) :
    t.keyOf? variant = some key := by
  have found := find?_eq_of_mem distinct h
  rw [keyOf?, found]
  rfl

theorem valueOf?_of_mem {key : String} (distinct : (t.rows.map (·.2)).Nodup) (h : (variant, key) ∈ t.rows) :
    t.valueOf? key = some variant := by
  have found := find?_eq_of_mem distinct h
  rw [valueOf?, found]
  rfl

theorem mem_of_valueOf? {key : String} (h : t.valueOf? key = some variant) : (variant, key) ∈ t.rows := by
  obtain ⟨row, found, rfl⟩ := Option.map_eq_some_iff.1 h
  have same := List.find?_some found
  rw [← eq_of_beq same]
  exact List.mem_of_find?_eq_some found

/-!
## Variants without a row
-/

/-- Why a variant cannot be written, if no row lists it. -/
def fault? (t : EnumTable) (variant : Nat) : Option Error :=
  if variant ∈ t.rows.map (·.1) then none else some t.unlisted

theorem fault?_eq_none_iff : t.fault? variant = none ↔ variant ∈ t.rows.map (·.1) := by
  unfold fault?
  split <;> simp_all

theorem keyOf?_eq_none_iff : t.keyOf? variant = none ↔ variant ∉ t.rows.map (·.1) := by
  rw [keyOf?, Option.map_eq_none_iff, List.find?_eq_none, List.mem_map, not_exists]
  exact forall_congr' fun row => by rw [not_and, beq_iff_eq]

theorem ordinalOf?_eq_none_iff : t.ordinalOf? variant = none ↔ variant ∉ t.rows.map (·.1) := by
  rw [ordinalOf?, List.findIdx?_eq_none_iff, List.mem_map, not_exists]
  exact forall_congr' fun row => by rw [not_and, beq_eq_false_iff_ne]

theorem error?_key : (t.key variant).error? = t.fault? variant := by
  unfold key fault?
  cases found : t.keyOf? variant with
  | none =>
    rw [if_neg (keyOf?_eq_none_iff.1 found)]
    rfl
  | some key =>
    have listed := mt keyOf?_eq_none_iff.2 (by rw [found]; nofun)
    rw [if_pos (not_not.1 listed)]
    rfl

theorem error?_ordinal : (t.ordinal variant).error? = t.fault? variant := by
  unfold EnumTable.ordinal fault?
  cases found : t.ordinalOf? variant with
  | none =>
    rw [if_neg (ordinalOf?_eq_none_iff.1 found)]
    rfl
  | some ordinal =>
    have listed := mt ordinalOf?_eq_none_iff.2 (by rw [found]; nofun)
    rw [if_pos (not_not.1 listed)]
    rfl

/-- No position that lists a variant is in front of the one that is found. -/
theorem exists_ordinalOf?_le (h : t.byOrdinal? ordinal = some variant) :
    ∃ first ≤ ordinal, t.ordinalOf? variant = some first := by
  obtain ⟨row, hrow, rfl⟩ := Option.map_eq_some_iff.1 h
  obtain ⟨inside, rfl⟩ := List.getElem?_eq_some_iff.1 hrow
  cases found : t.ordinalOf? t.rows[ordinal].1 with
  | none => exact absurd (List.mem_map_of_mem (List.getElem_mem inside)) (ordinalOf?_eq_none_iff.1 found)
  | some first =>
    refine ⟨first, ?_, rfl⟩
    obtain ⟨_, _, before⟩ := List.findIdx?_eq_some_iff_getElem.1 found
    by_contra behind
    exact before ordinal (Nat.lt_of_not_le behind) (beq_self_eq_true _)

/-!
## Repeated rows
-/

/-- A search for a kind finds the first element of the kind. -/
theorem find?_eq_some_iff_front {α β : Type} [BEq β] [LawfulBEq β] {f : α → β} {as : List α} {b : β} {a : α} :
    as.find? (f · == b) = some a ↔ f a = b ∧ ∃ front back, as = front ++ a :: back ∧ b ∉ front.map f := by
  rw [List.find?_eq_some_iff_append, beq_iff_eq]
  refine and_congr_right fun _ => exists_congr fun front => exists_congr fun back => and_congr_right fun _ => ?_
  rw [List.mem_map, not_exists]
  exact forall_congr' fun c => by rw [not_and, Bool.not_eq_true', beq_eq_false_iff_ne]

/-- How the first row of a variant stands in a table: which rows are in front of it, and its key. -/
def FirstRow (t : EnumTable) (front : List (Nat × String)) (variant : Nat) (key : String) : Prop :=
  variant ∉ front.map (·.1) ∧ ∃ back, t.rows = front ++ (variant, key) :: back

/-- The first row of a variant is always the first row of its key, too. -/
def FirstRowsAgree (t : EnumTable) : Prop :=
  ∀ front variant key, t.FirstRow front variant key → key ∉ front.map (·.2)

theorem keyOf?_eq_some_iff {key : String} : t.keyOf? variant = some key ↔ ∃ front, t.FirstRow front variant key := by
  rw [keyOf?, Option.map_eq_some_iff]
  constructor
  · rintro ⟨⟨v, k⟩, found, rfl⟩
    obtain ⟨rfl, front, back, rows, new⟩ := find?_eq_some_iff_front.1 found
    exact ⟨front, new, back, rows⟩
  · rintro ⟨front, new, back, rows⟩
    exact ⟨(variant, key), find?_eq_some_iff_front.2 ⟨rfl, front, back, rows, new⟩, rfl⟩

theorem valueOf?_eq_some_iff {key : String} : t.valueOf? key = some variant ↔
    ∃ front back, t.rows = front ++ (variant, key) :: back ∧ key ∉ front.map (·.2) := by
  rw [valueOf?, Option.map_eq_some_iff]
  constructor
  · rintro ⟨⟨v, k⟩, found, rfl⟩
    obtain ⟨rfl, front, back, rows, new⟩ := find?_eq_some_iff_front.1 found
    exact ⟨front, back, rows, new⟩
  · rintro ⟨front, back, rows, new⟩
    exact ⟨(variant, key), find?_eq_some_iff_front.2 ⟨rfl, front, back, rows, new⟩, rfl⟩

theorem exists_firstRow (listed : variant ∈ t.rows.map (·.1)) : ∃ front key, t.FirstRow front variant key := by
  cases found : t.keyOf? variant with
  | none => exact absurd listed (keyOf?_eq_none_iff.1 found)
  | some key => exact (keyOf?_eq_some_iff.1 found).imp fun _ first => ⟨key, first⟩

theorem mem_of_firstRow {front : List (Nat × String)} {key : String} (first : t.FirstRow front variant key) :
    variant ∈ t.rows.map (·.1) := by
  obtain ⟨-, back, rows⟩ := first
  exact List.mem_map.2 ⟨(variant, key), rows ▸ List.mem_append_right _ List.mem_cons_self, rfl⟩

/-- The key of a variant leads back to it unless a row in front of its first one has that key. -/
theorem valueOf?_of_firstRow {front : List (Nat × String)} {key : String} (first : t.FirstRow front variant key) :
    t.valueOf? key = some variant ↔ key ∉ front.map (·.2) := by
  obtain ⟨new, back, rows⟩ := first
  constructor
  · intro found taken
    obtain ⟨row, hrow, same⟩ := List.mem_map.1 taken
    -- the search ends within the rows in front, none of which lists the variant
    have within : t.valueOf? key = (front.find? (·.2 == key)).map (·.1) := by
      have some : (front.find? (·.2 == key)).isSome := List.find?_isSome.2 ⟨row, hrow, beq_iff_eq.2 same⟩
      rw [valueOf?, rows, List.find?_append, Option.or_of_isSome some]
    rw [within] at found
    obtain ⟨other, hother, rfl⟩ := Option.map_eq_some_iff.1 found
    exact new (List.mem_map_of_mem (List.mem_of_find?_eq_some hother))
  · exact fun free => valueOf?_eq_some_iff.2 ⟨front, back, rows, free⟩

theorem ofKey_eq_ok_iff {key : String} : t.ofKey key = .ok variant ↔ t.valueOf? key = some variant := by
  unfold ofKey
  cases t.valueOf? key with
  | none => exact ⟨nofun, nofun⟩
  | some n => rw [Except.ok.injEq, Option.some.injEq]

theorem key_eq_ok_iff {key : String} : t.key variant = .ok key ↔ t.keyOf? variant = some key := by
  unfold EnumTable.key
  cases t.keyOf? variant with
  | none => exact ⟨nofun, nofun⟩
  | some n => rw [Except.ok.injEq, Option.some.injEq]

/-- A variant survives the setting of its own key where the two searches lead back to it. -/
theorem ofKey_key_eq_ok_iff :
    (t.key variant >>= t.ofKey) = .ok variant ↔ (t.keyOf? variant >>= t.valueOf?) = some variant := by
  rw [Except.bind_eq_ok_iff, Option.bind_eq_bind, Option.bind_eq_some_iff]
  exact exists_congr fun key => and_congr key_eq_ok_iff ofKey_eq_ok_iff

theorem valueOf?_keyOf?_of_firstRow {front : List (Nat × String)} {key : String}
    (first : t.FirstRow front variant key) :
    (t.keyOf? variant >>= t.valueOf?) = some variant ↔ key ∉ front.map (·.2) := by
  rw [keyOf?_eq_some_iff.2 ⟨front, first⟩, ← valueOf?_of_firstRow first]
  rfl

theorem byOrdinal?_ordinalOf? (listed : variant ∈ t.rows.map (·.1)) :
    (t.ordinalOf? variant >>= t.byOrdinal?) = some variant := by
  cases found : t.ordinalOf? variant with
  | none => exact absurd listed (ordinalOf?_eq_none_iff.1 found)
  | some ordinal => exact byOrdinal?_of_ordinalOf? found

theorem ofOrdinal_ordinal (listed : variant ∈ t.rows.map (·.1)) :
    (t.ordinal variant >>= t.ofOrdinal) = .ok variant := by
  obtain ⟨ordinal, placed, found⟩ := Option.bind_eq_some_iff.1 (byOrdinal?_ordinalOf? listed)
  exact Except.bind_eq_ok_iff.2 ⟨ordinal, ordinal_eq_ok_iff.2 placed, ofOrdinal_eq_ok_iff.2 found⟩

/-- All variants survive the setting of their keys exactly if their first rows are the first ones of their keys. -/
theorem ofKey_key_iff_firstRowsAgree :
    (∀ variant ∈ t.rows.map (·.1), (t.key variant >>= t.ofKey) = .ok variant) ↔ t.FirstRowsAgree := by
  constructor
  · intro survive front variant key first
    exact (valueOf?_keyOf?_of_firstRow first).1 (ofKey_key_eq_ok_iff.1 (survive variant (mem_of_firstRow first)))
  · intro agree variant listed
    obtain ⟨front, key, first⟩ := exists_firstRow listed
    exact ofKey_key_eq_ok_iff.2 ((valueOf?_keyOf?_of_firstRow first).2 (agree front variant key first))

theorem exists_ofKey {key : String} (listed : key ∈ t.rows.map (·.2)) : ∃ variant, t.ofKey key = .ok variant := by
  obtain ⟨row, hrow, same⟩ := List.mem_map.1 listed
  cases found : t.valueOf? key with
  | none => exact absurd (beq_iff_eq.2 same) (List.find?_eq_none.1 (Option.map_eq_none_iff.1 found) row hrow)
  | some variant => exact ⟨variant, ofKey_eq_ok_iff.2 found⟩

/-- **In a table with whatever repetitions the first rows count.**  A variant is always found again by its position, and
by its key exactly if no row in front of its first one has the key.  So every variant survives that its own position is
set; all of them survive that their own keys are set exactly if the first row of each is the first row of its key, and
then any key of the table leads to a variant that survives, be the key its own or another name for it. -/
theorem first_rows_count (t : EnumTable) :
    (∀ front variant key, t.FirstRow front variant key →
      (t.ordinalOf? variant >>= t.byOrdinal?) = some variant ∧
      ((t.keyOf? variant >>= t.valueOf?) = some variant ↔ key ∉ front.map (·.2))) ∧
    (∀ variant ∈ t.rows.map (·.1), (∃ front key, t.FirstRow front variant key) ∧
      (t.ordinal variant >>= t.ofOrdinal) = .ok variant) ∧
    ((∀ variant ∈ t.rows.map (·.1), (t.key variant >>= t.ofKey) = .ok variant) ↔ t.FirstRowsAgree) ∧
    (t.FirstRowsAgree → ∀ key ∈ t.rows.map (·.2), ∃ variant, t.ofKey key = .ok variant ∧
      (t.key variant >>= t.ofKey) = .ok variant) := by
  refine ⟨fun front variant key first => ?_, fun variant listed => ?_, ofKey_key_iff_firstRowsAgree, ?_⟩
  · exact ⟨byOrdinal?_ordinalOf? (mem_of_firstRow first), valueOf?_keyOf?_of_firstRow first⟩
  · exact ⟨exists_firstRow listed, ofOrdinal_ordinal listed⟩
  · intro agree key listed
    obtain ⟨variant, set⟩ := exists_ofKey listed
    have present : variant ∈ t.rows.map (·.1) := List.mem_map_of_mem (mem_of_valueOf? (ofKey_eq_ok_iff.1 set))
    exact ⟨variant, set, ofKey_key_iff_firstRowsAgree.2 agree variant present⟩

/-- A variant of two names has its first one as its key; of two variants of one name the second does not survive. -/
example :
    let aliased : EnumTable := ⟨"Alias", [(0, "one"), (1, "two"), (0, "uno")]⟩
    let clash : EnumTable := ⟨"Odd", [(4, "same"), (5, "same")]⟩
    aliased.ofKey "uno" = .ok 0 ∧ aliased.key 0 = .ok "one" ∧ (clash.key 5 >>= clash.ofKey) = .ok 4 := by
  decide

end EnumTable
end AssetRecords
