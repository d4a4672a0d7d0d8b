import AssetRecords.Json.Writer
import AssetRecords.Proofs.EnumTable
import AssetRecords.Proofs.Preorder
/-!
# Refusals — what the JSON writer refuses, and in which order

The pieces that a value has been written to so far do not show in why it is refused: the reason is the first fault of
what occurs in the value (`refusal_eq`), wherever the text stands and however it is laid out.
-/
namespace AssetRecords
namespace Json

/-- Why a number has no JSON. -/
def numberFault? (s : Scalar) : Option Error :=
  match s.toNumber with
  | .float x => if s.isFinite then none else some (.inexpressible (.notFinite x))
  | _ => none

/-- Why a value has no JSON, apart from its parts.  Of its numbers the first one is told that is not finite. -/
def fault? : Value → Option Error
  | .enum table variant => table.fault? variant
  | v => v.scalars.findSome? numberFault?

/-- Infinities and NaNs have no JSON, and nothing else. -/
theorem numberFault?_eq_none_iff {s : Scalar} : numberFault? s = none ↔ s.isFinite = true := by
  unfold numberFault?
  obtain ⟨type, bits⟩ := s
  cases type with
  | float32 | float64 => simp [Scalar.toNumber]
  | _ => simp [Scalar.toNumber, Scalar.isFinite]

/-!
## Emissions
-/

theorem Emission.refusal_append (a b : Emission) : (a ++ b).refusal = a.refusal.or b.refusal := by
  obtain ⟨ps, refusal⟩ := a
  cases refusal <;> rfl

@[simp] theorem Emission.refusal_piece (cs : List Char) : (piece cs).refusal = none := rfl

@[simp] theorem Layout.refusal_newline (layout : Layout) (depth : Nat) : (layout.newline depth).refusal = none := by
  unfold newline
  split <;> rfl

theorem refusal_comma (first : Bool) (comma : List Char) :
    (if first then ({} : Emission) else .piece comma).refusal = none := by
  cases first <;> rfl

theorem refusal_writeNumber (s : Scalar) : (writeNumber s).refusal = numberFault? s := by
  unfold writeNumber numberFault?
  by_cases finite : s.isFinite = true
  · simp only [finite, if_true]
    cases s.toNumber <;> rfl
  · simp only [finite]
    cases s.toNumber <;> rfl

theorem refusal_writeNumbersAfter (layout : Layout) (ns : List Scalar) :
    (writeNumbersAfter layout ns).refusal = ns.findSome? numberFault? := by
  induction ns with
  | nil => rfl
  | cons n rest ih =>
    rw [writeNumbersAfter, Emission.refusal_append, Emission.refusal_append, ih, refusal_writeNumber, Layout.separator,
      Emission.refusal_piece, Option.none_or, List.findSome?_cons]
    cases numberFault? n <;> rfl

theorem refusal_writeNumbers (layout : Layout) (ns : List Scalar) :
    (writeNumbers layout ns).refusal = ns.findSome? numberFault? := by
  unfold writeNumbers
  rw [Emission.refusal_append, Emission.refusal_append, Emission.refusal_piece, Emission.refusal_piece, Option.none_or,
    Option.or_none]
  cases ns with
  | nil => rfl
  | cons n rest =>
    rw [Emission.refusal_append, refusal_writeNumber, refusal_writeNumbersAfter, List.findSome?_cons]
    cases numberFault? n <;> rfl

theorem refusal_writeLeaf (l : Leaf) : (writeLeaf l).refusal = fault? (.leaf l) := by
  cases l with
  | number s =>
    rw [writeLeaf, refusal_writeNumber, fault?, Value.scalars, List.findSome?_singleton]
    nofun
  | _ => rfl

/-!
## Values
-/

section Lists

variable {layout : Layout} {depth : Nat}

theorem refusal_writeElements : ∀ {first : Bool} {vs : List Value},
    (∀ p ∈ vs, (write layout depth p).refusal = p.firstFault? fault?) →
      (writeElements layout depth first vs).refusal = vs.findSome? (Value.firstFault? fault?)
  | _, [], _ => by
    rw [writeElements]
    rfl
  | first, v :: rest, each => by
    obtain ⟨here, each⟩ := List.forall_mem_cons.1 each
    rw [writeElements, Emission.refusal_append, Emission.refusal_append, Layout.separator, refusal_comma, Option.none_or,
      here, refusal_writeElements each, List.findSome?_cons]
    cases v.firstFault? fault? <;> rfl

/-- What is left out of an object has no faults. -/
theorem firstFault?_of_isAbsent {v : Value} (absent : isAbsent v = true) : v.firstFault? fault? = none := by
  cases v with
  | absent content => rfl
  | _ => cases absent

theorem refusal_writeFields : ∀ {first : Bool} {fields : List (String × Value)},
    (∀ f ∈ fields, (write layout (depth + 1) f.2).refusal = f.2.firstFault? fault?) →
      (writeFields layout depth first fields).refusal = (fields.map (·.2)).findSome? (Value.firstFault? fault?)
  | _, [], _ => by
    rw [writeFields]
    rfl
  | first, (key, v) :: rest, each => by
    obtain ⟨here, each⟩ := List.forall_mem_cons.1 each
    rw [writeFields, List.map_cons, List.findSome?_cons]
    split
    · rename_i absent
      rw [firstFault?_of_isAbsent absent, refusal_writeFields each]
    · simp only [Emission.refusal_append, Layout.colon, refusal_comma, Emission.refusal_piece, Layout.refusal_newline,
        writeText, Option.none_or, here, refusal_writeFields each]
      cases v.firstFault? fault? <;> rfl

end Lists

/-- **The writer refuses a value for its first fault**, in whatever layout and at whatever depth. -/
theorem refusal_eq (layout : Layout) (depth : Nat) (v : Value) :
    (write layout depth v).refusal = v.firstFault? fault? := by
  induction v using Value.parts_induction generalizing depth with
  | step v ih =>
    rw [Value.firstFault?_eq]
    cases v with
    | leaf l => rw [write, refusal_writeLeaf]; exact (Option.or_none).symm
    | enum table variant =>
      rw [write, fault?, ← EnumTable.error?_key]
      cases table.key variant <;> rfl
    | record name fields =>
      rw [write]
      split
      · rename_i absent
        refine (List.findSome?_eq_none_iff.2 fun p hp => ?_).symm
        obtain ⟨f, hf, rfl⟩ := List.mem_map.1 hp
        exact firstFault?_of_isAbsent (List.all_eq_true.1 absent f hf)
      · simp only [Emission.refusal_append, Emission.refusal_piece, Layout.refusal_newline, Option.none_or, Option.or_none,
          refusal_writeFields fun f hf => ih f.2 (List.mem_map_of_mem hf) (depth + 1)]
        rfl
    | tuple vs | sequence element vs =>
      have elements : (writeElements layout depth true vs).refusal = vs.findSome? (Value.firstFault? fault?) :=
        refusal_writeElements fun p hp => ih p hp depth
      simp only [write, Emission.refusal_append, Emission.refusal_piece, Option.none_or, Option.or_none, elements]
      rfl
    | numbers type ns => rw [write, refusal_writeNumbers]; exact (Option.or_none).symm
    | buffer b => rw [write, refusal_writeNumbers]; exact (Option.or_none).symm
    | absent content => rw [write]; rfl
    | present content w =>
      rw [write, ih w List.mem_cons_self, Value.parts, List.findSome?_singleton]
      rfl

end Json
end AssetRecords
