import AssetRecords.Proofs.DebugText.RoundTrip
import AssetRecords.Proofs.Json.Refusals
import AssetRecords.Proofs.Json.Window
import AssetRecords.Proofs.Packed.RoundTrip
/-!
# Refusals — what the three formats refuse, and in which order

Each format refuses a value for the first fault of what occurs in it, a value being visited in front of its parts.  What
is a fault differs: debug text wants its enum values listed, JSON also its numbers finite, and packed bytes have room
for so many bytes of a text, so many elements and so many positions of a table.
-/
namespace AssetRecords

/-!
## Debug text
-/

namespace DebugText

/-- Why a value has no debug text, apart from its parts. -/
def fault? : Value → Option Error
  | .enum table variant => table.fault? variant
  | _ => none

theorem error?_writeAll {vs : List Value} (each : ∀ v ∈ vs, (write v).error? = v.firstFault? fault?) :
    (writeAll vs).error? = vs.findSome? (Value.firstFault? fault?) := by
  refine Except.error?_all rfl (fun v rest => ?_) each
  rw [writeAll]
  exact Except.error?_bind fun text => Except.error?_bind_pure (text :: ·) (writeAll rest)

/-- **Debug text refuses a value for its first fault.** -/
theorem error?_write (v : Value) : (write v).error? = v.firstFault? fault? := by
  induction v using Value.parts_induction with
  | step v ih =>
    rw [Value.firstFault?_eq]
    cases v with
    | enum table variant =>
      rw [write, Except.error?_map, EnumTable.error?_key]
      exact Option.or_none.symm
    | record name fields =>
      rw [write, Except.error?_map, writeFields_eq]
      exact error?_writeAll ih
    | tuple vs | sequence element vs =>
      rw [write, Except.error?_map]
      exact error?_writeAll ih
    | present content w =>
      rw [write, ih w List.mem_cons_self, Value.parts, List.findSome?_singleton]
      rfl
    | _ => rw [write]; rfl

theorem error?_render (v : Value) : (render v).error? = v.firstFault? fault? := by
  rw [render, Except.error?_map, error?_write]

end DebugText

/-!
## Packed bytes
-/

namespace Packed

/-- Why so many of something cannot be written, if there is room for so many at most. -/
def tooLarge? (what : String) (most n : Nat) : Option Error :=
  if n ≤ most then none else some (.inexpressible (.tooLarge what n))

/-- Why a value has no packed bytes, apart from its parts. -/
def fault? : Value → Option Error
  | .leaf (.text s) => tooLarge? "string length" 65535 (Utf8.encode s.toList).length
  | .enum table variant =>
    match table.ordinalOf? variant with
    | some ordinal => tooLarge? "enum ordinal" 65535 ordinal
    | none => some table.unlisted
  | .numbers _ ns => tooLarge? "sequence length" 4294967295 ns.length
  | .sequence _ vs => tooLarge? "sequence length" 4294967295 vs.length
  | .buffer b => tooLarge? "buffer length" 4294967295 b.length
  | _ => none

theorem tooLarge?_eq_none_iff {what : String} {most n : Nat} : tooLarge? what most n = none ↔ n ≤ most := by
  unfold tooLarge?
  split <;> simp_all

theorem error?_count {size most n : Nat} {what : String} (room : Nat.pow 256 size = most + 1) :
    (count size n what).error? = tooLarge? what most n := by
  unfold count tooLarge?
  rw [room]
  by_cases small : n ≤ most
  · rw [if_pos small, if_pos (Nat.lt_succ_of_le small)]
    rfl
  · rw [if_neg small, if_neg (by omega)]
    rfl

theorem error?_writeLeaf (l : Leaf) : (writeLeaf l).error? = fault? (.leaf l) := by
  cases l with
  | text s =>
    rw [writeLeaf, Except.error?_bind_pure]
    exact error?_count rfl
  | _ => rfl

theorem error?_writeEnum (table : EnumTable) (variant : Nat) :
    (write (.enum table variant)).error? = fault? (.enum table variant) := by
  rw [write, fault?, EnumTable.ordinal]
  cases table.ordinalOf? variant with
  | none => rfl
  | some ordinal => exact error?_count rfl

theorem error?_writeAll {vs : List Value} (each : ∀ v ∈ vs, (write v).error? = v.firstFault? fault?) :
    (writeAll vs).error? = vs.findSome? (Value.firstFault? fault?) := by
  refine Except.error?_all rfl (fun v rest => ?_) each
  rw [writeAll]
  exact Except.error?_bind fun bytes => Except.error?_bind_pure (bytes ++ ·) (writeAll rest)

/-- **Packed bytes refuse a value for its first fault.** -/
theorem error?_write (v : Value) : (write v).error? = v.firstFault? fault? := by
  induction v using Value.parts_induction with
  | step v ih =>
    rw [Value.firstFault?_eq]
    cases v with
    | leaf l =>
      rw [write, error?_writeLeaf]
      exact Option.or_none.symm
    | enum table variant =>
      rw [error?_writeEnum]
      exact Option.or_none.symm
    | record name fields =>
      rw [write, writeFields_eq]
      exact error?_writeAll ih
    | tuple vs =>
      rw [write]
      exact error?_writeAll ih
    | numbers type ns =>
      rw [write, Except.error?_bind_pure, error?_count rfl]
      exact Option.or_none.symm
    | sequence element vs =>
      have elements : (writeAll vs).error? = vs.findSome? (Value.firstFault? fault?) := error?_writeAll ih
      rw [write, Except.error?_bind fun length => Except.error?_bind_pure (length ++ ·) (writeAll vs),
        error?_count rfl, elements]
      rfl
    | buffer b =>
      rw [write, writeBuffer, Except.error?_bind_pure, error?_count rfl]
      exact Option.or_none.symm
    | absent content => rw [write]; rfl
    | present content w =>
      rw [write, Except.error?_bind_pure, ih w List.mem_cons_self, Value.parts, List.findSome?_singleton]
      rfl

end Packed

/-!
## JSON
-/

namespace Json

variable {layout : Layout} {v : Value}

theorem error?_render (layout : Layout) (v : Value) : (render layout v).error? = v.firstFault? fault? := by
  rw [← refusal_eq layout 0]
  cases h : (write layout 0 v).refusal with
  | none => rw [render_of_refusal_none h]; rfl
  | some e => rw [render_of_refusal h]; rfl

/-- A window that is too small hides no fault, and is the only other reason for which nothing is put into it. -/
theorem writeInto_eq_error_iff {w : Window} {e : Error} : (writeInto layout w v).1 = .error e ↔
    v.firstFault? fault? = some e ∨ ∃ text, render layout v = .ok text ∧
      w.capacity < (Utf8.encode text.toList).length ∧
        e = .windowTooSmall (Utf8.encode text.toList).length w.capacity := by
  obtain ⟨f, holds, wrote⟩ := writeInto_eq layout w v
  rw [wrote]
  cases h : (write layout 0 v).refusal with
  | some fault =>
    rw [← refusal_eq layout 0, h, render_of_refusal h]
    simp
  | none =>
    rw [← refusal_eq layout 0, h, render_of_refusal_none h]
    simp only [holds.finish_eq]
    by_cases fits : (Utf8.encode (fullText layout v)).length ≤ w.capacity
    · simp [fits, Nat.not_lt.2 fits]
    · simp [fits, Nat.not_le.1 fits, eq_comm]

end Json

/-!
## What has no fault
-/

namespace Value

/-- Every enum value in a value is listed in its table. -/
def Listed (v : Value) : Prop :=
  ∀ table variant, (enum table variant).Occurs v → variant ∈ table.rows.map (·.1)

/-- No number in a value is infinite or a NaN, whether it stands for itself or in a block. -/
def Finite (v : Value) : Prop := ∀ w : Value, w.Occurs v → ∀ s ∈ w.scalars, s.isFinite = true

/-- Whatever is counted in packed bytes fits into the bytes of its count. -/
structure Countable (v : Value) : Prop where
  positions : ∀ table variant, (enum table variant).Occurs v →
    ∃ ordinal ≤ 65535, table.byOrdinal? ordinal = some variant
  texts : ∀ s, (leaf (.text s)).Occurs v → (Utf8.encode s.toList).length ≤ 65535
  counts : v.CountsWithin 4294967295

variable {v : Value}

theorem listed_iff : v.Listed ↔ v.firstFault? DebugText.fault? = none := by
  rw [firstFault?_eq_none_iff]
  constructor
  · intro listed w occurs
    cases w with
    | enum table variant => exact EnumTable.fault?_eq_none_iff.2 (listed table variant occurs)
    | _ => rfl
  · intro clear table variant occurs
    exact EnumTable.fault?_eq_none_iff.1 (clear _ occurs)

theorem listed_and_finite_iff : v.Listed ∧ v.Finite ↔ v.firstFault? Json.fault? = none := by
  rw [firstFault?_eq_none_iff]
  constructor
  · rintro ⟨listed, finite⟩ w occurs
    have numbers : w.scalars.findSome? Json.numberFault? = none :=
      List.findSome?_eq_none_iff.2 fun s hs => Json.numberFault?_eq_none_iff.2 (finite w occurs s hs)
    cases w with
    | enum table variant => exact EnumTable.fault?_eq_none_iff.2 (listed table variant occurs)
    | _ => exact numbers
  · refine fun clear => ⟨fun table variant occurs => EnumTable.fault?_eq_none_iff.1 (clear _ occurs), ?_⟩
    intro w occurs s hs
    have numbers : w.scalars.findSome? Json.numberFault? = none := by
      cases w with
      | enum table variant => rfl
      | _ => exact clear _ occurs
    exact Json.numberFault?_eq_none_iff.1 (List.findSome?_eq_none_iff.1 numbers s hs)

theorem countable_iff : v.Countable ↔ v.firstFault? Packed.fault? = none := by
  rw [firstFault?_eq_none_iff]
  constructor
  · intro countable w occurs
    have count := countable.counts w occurs
    cases w with
    | leaf l =>
      cases l with
      | text s => exact Packed.tooLarge?_eq_none_iff.2 (countable.texts s occurs)
      | _ => rfl
    | enum table variant =>
      -- the first position that lists the variant is written, and that is none of the later ones
      obtain ⟨ordinal, small, listed⟩ := countable.positions table variant occurs
      obtain ⟨first, le, found⟩ := EnumTable.exists_ordinalOf?_le listed
      simp only [Packed.fault?, found]
      exact Packed.tooLarge?_eq_none_iff.2 (Nat.le_trans le small)
    | numbers type ns => exact Packed.tooLarge?_eq_none_iff.2 count
    | sequence element vs => exact Packed.tooLarge?_eq_none_iff.2 count
    | buffer b => exact Packed.tooLarge?_eq_none_iff.2 count
    | _ => rfl
  · refine fun clear => ⟨fun table variant occurs => ?_, fun s occurs => ?_, fun w occurs => ?_⟩
    · have fault := clear _ occurs
      simp only [Packed.fault?] at fault
      cases found : table.ordinalOf? variant with
      | none => rw [found] at fault; cases fault
      | some ordinal =>
        rw [found] at fault
        exact ⟨ordinal, Packed.tooLarge?_eq_none_iff.1 fault, EnumTable.byOrdinal?_of_ordinalOf? found⟩
    · exact Packed.tooLarge?_eq_none_iff.1 (clear _ occurs)
    · have fault := clear w occurs
      cases w with
      | numbers type ns => exact Packed.tooLarge?_eq_none_iff.1 fault
      | sequence element vs => exact Packed.tooLarge?_eq_none_iff.1 fault
      | buffer b => exact Packed.tooLarge?_eq_none_iff.1 fault
      | _ => exact Nat.zero_le _

end Value

/-- **What each format refuses, and for what.**  Debug text has every value whose enum values are listed, JSON those of
them whose numbers are finite, and packed bytes every value whose counts and positions fit.  A refused value is refused
for the first of its faults, in JSON for every layout and for every window alike. -/
theorem refused_for_first_fault (v : Value) :
    ((∃ text, DebugText.render v = .ok text) ↔ v.Listed) ∧
    (∀ layout, (∃ text, Json.render layout v = .ok text) ↔ v.Listed ∧ v.Finite) ∧
    ((∃ bytes, Packed.write v = .ok bytes) ↔ v.Countable) ∧
    ∀ e, (DebugText.render v = .error e ↔ v.firstFault? DebugText.fault? = some e) ∧
      (∀ layout, Json.render layout v = .error e ↔ v.firstFault? Json.fault? = some e) ∧
      (∀ layout w, (Json.writeInto layout w v).1 = .error e ↔ v.firstFault? Json.fault? = some e ∨
        ∃ text, Json.render layout v = .ok text ∧ w.capacity < (Utf8.encode text.toList).length ∧
          e = .windowTooSmall (Utf8.encode text.toList).length w.capacity) ∧
      (Packed.write v = .error e ↔ v.firstFault? Packed.fault? = some e) := by
  refine ⟨?_, fun layout => ?_, ?_, fun e => ⟨?_, fun layout => ?_, fun layout w => ?_, ?_⟩⟩
  · rw [← Except.error?_eq_none_iff, DebugText.error?_render, Value.listed_iff]
  · rw [← Except.error?_eq_none_iff, Json.error?_render, Value.listed_and_finite_iff]
  · rw [← Except.error?_eq_none_iff, Packed.error?_write, Value.countable_iff]
  · rw [← Except.error?_eq_some_iff, DebugText.error?_render]
  · rw [← Except.error?_eq_some_iff, Json.error?_render]
  · exact Json.writeInto_eq_error_iff
  · rw [← Except.error?_eq_some_iff, Packed.error?_write]

end AssetRecords
