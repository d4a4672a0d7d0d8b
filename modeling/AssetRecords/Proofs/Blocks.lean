import AssetRecords.Json.Window
import AssetRecords.Proofs.Json.Decoding
import AssetRecords.Proofs.Packed.RoundTrip
/-!
# Blocks — numbers in one block and numbers each for itself

The numbers of a block are written and read in one go, by code of their own.  What comes out is what comes out of a
sequence whose elements are the same numbers, each for itself (`blocks_agree`): one JSON text in every layout, one string
of bytes, and the same numbers from every tree and all bytes.  The one difference is that the elements of a sequence are
a level of their own.
-/
namespace AssetRecords

namespace Value

def leaves (type : ScalarType) (ns : List type.Bits) : List Value := ns.map fun bits => .leaf (.number ⟨type, bits⟩)

theorem leaves_cons {type : ScalarType} (bits : type.Bits) (ns : List type.Bits) :
    leaves type (bits :: ns) = .leaf (.number ⟨type, bits⟩) :: leaves type ns := rfl

@[simp] theorem length_leaves {type : ScalarType} (ns : List type.Bits) : (leaves type ns).length = ns.length :=
  List.length_map _

/-- Numbers in a sequence, each for itself. -/
def loose (type : ScalarType) (ns : List type.Bits) : Value := .sequence (.leaf (.number type)) (leaves type ns)

end Value

/-- What is had of the same numbers in a block and each for itself: both times the same ones, or none. -/
def SameNumbers (type : ScalarType) (block loose : Except Error Value) : Prop :=
  ∃ ns : Option (List type.Bits), block.toOption = ns.map (.numbers type) ∧ loose.toOption = ns.map (.loose type)

theorem sameNumbers_of_iff {type : ScalarType} {block loose : Except Error Value}
    (blocks : ∀ v, block = .ok v → ∃ ns, v = .numbers type ns)
    (same : ∀ v, loose = .ok v ↔ ∃ ns, v = .loose type ns ∧ block = .ok (.numbers type ns)) :
    SameNumbers type block loose := by
  cases had : block with
  | ok v =>
    obtain ⟨ns, rfl⟩ := blocks v had
    exact ⟨some ns, rfl, Except.toOption_eq_some_iff.2 ((same _).2 ⟨ns, rfl, had⟩)⟩
  | error e =>
    refine ⟨none, rfl, ?_⟩
    cases had' : loose with
    | error e' => rfl
    | ok v =>
      obtain ⟨ns, -, had''⟩ := (same v).1 had'
      cases had.symm.trans had''

theorem SameNumbers.of_block {type : ScalarType} {block loose : Except Error Value} (same : SameNumbers type block loose)
    {ns : List type.Bits} (had : block = .ok (.numbers type ns)) : loose = .ok (.loose type ns) := by
  obtain ⟨ns', block, loose⟩ := same
  rw [had] at block
  cases ns' with
  | none => cases block
  | some ns' =>
    cases block
    exact Except.toOption_eq_some_iff.1 loose

/-!
## JSON
-/

namespace Json

section Writing

variable {layout : Layout} {depth : Nat} {type : ScalarType}

theorem Emission.nil_append (a : Emission) : ({} : Emission) ++ a = a := rfl

theorem writeElements_loose (ns : List type.Bits) :
    writeElements layout depth false (Value.leaves type ns) =
      writeNumbersAfter layout (ns.map (.mk type)) := by
  induction ns with
  | nil => rw [List.map_nil, writeNumbersAfter, Value.leaves, List.map_nil, writeElements]
  | cons n ns ih =>
    rw [Value.leaves_cons, List.map_cons, writeElements, writeNumbersAfter, ih, write, if_neg Bool.false_ne_true]
    rfl

/-- Both are written piece for piece the same. -/
theorem write_loose (ns : List type.Bits) :
    write layout depth (.numbers type ns) = write layout depth (.loose type ns) := by
  rw [Value.loose, write, write]
  cases ns with
  | nil => rw [List.map_nil, writeNumbers, Value.leaves, List.map_nil, writeElements]
  | cons n ns =>
    rw [Value.leaves_cons, List.map_cons, writeElements, writeElements_loose, write, if_pos rfl, Emission.nil_append,
      writeNumbers, writeLeaf]

theorem render_loose (ns : List type.Bits) : render layout (.numbers type ns) = render layout (.loose type ns) := by
  have into : ∀ w, writeInto layout w (.numbers type ns) = writeInto layout w (.loose type ns) := fun w => by
    rw [writeInto, write_loose, ← writeInto]
  simp only [render, into]

end Writing

section Decoding

variable {S : Schema} {L : Limits} {room : Nat} {type : ScalarType} {j : Json} {v : Value}

/-- Each for itself a number is taken as a block takes it. -/
theorem decodeInto_number {old : type.Bits} : decodeInto S L (room + 1) (.leaf (.number ⟨type, old⟩)) j = .ok v ↔
    ∃ bits, v = .leaf (.number ⟨type, bits⟩) ∧ (j.toNumber >>= fun n => type.narrow n) = .ok bits := by
  rw [decodeInto_eq_ok_iff]
  constructor
  · intro h
    cases h with
    | clear optional => cases optional
    | fill optional => cases optional
    | leaf assigned =>
      cases j with
      | number n =>
        obtain ⟨bits, narrowed, rfl⟩ := Except.map_eq_ok_iff.1 assigned
        exact ⟨bits, rfl, narrowed⟩
      | _ => cases assigned
  · rintro ⟨bits, rfl, narrowed⟩
    obtain ⟨n, number, narrowed⟩ := Except.bind_eq_ok_iff.1 narrowed
    refine .leaf ?_
    cases j with
    | number n' =>
      cases number
      exact Except.map_eq_ok_iff.2 ⟨bits, narrowed, rfl⟩
    | _ => cases number

theorem targets_leaves (S : Schema) (j : Json) (js : List Json) (olds : List type.Bits) :
    targets (S.initial (.leaf (.number type))) (Value.leaves type olds) (j :: js) =
      (.leaf (.number ⟨type, olds.head?.getD 0⟩), j) ::
        targets (S.initial (.leaf (.number type))) (Value.leaves type olds.tail) js := by
  rw [targets_cons, Schema.initial, LeafType.initial]
  cases olds <;> rfl

theorem mapM_targets_loose {js : List Json} {olds : List type.Bits} {vs : List Value} :
    ((targets (S.initial (.leaf (.number type))) (Value.leaves type olds) js).mapM fun p =>
      decodeInto S L (room + 1) p.1 p.2) = .ok vs ↔
        ∃ ns, vs = Value.leaves type ns ∧ bulkCopy type js = .ok ns := by
  induction js generalizing olds vs with
  | nil =>
    rw [targets_nil_right, List.mapM_nil, bulkCopy, List.mapM_nil]
    constructor
    · rintro ⟨⟩
      exact ⟨[], rfl, rfl⟩
    · rintro ⟨ns, rfl, ⟨⟩⟩
      rfl
  | cons j js ih =>
    rw [targets_leaves, List.mapM_cons, bulkCopy, List.mapM_cons, Except.bind_eq_ok_iff]
    constructor
    · rintro ⟨w, taken, h⟩
      obtain ⟨ws, rest, ⟨⟩⟩ := Except.bind_eq_ok_iff.1 h
      obtain ⟨bits, rfl, narrowed⟩ := decodeInto_number.1 taken
      obtain ⟨ns, rfl, copied⟩ := ih.1 rest
      exact ⟨bits :: ns, rfl, Except.bind_eq_ok_iff.2 ⟨bits, narrowed, Except.bind_eq_ok_iff.2 ⟨ns, copied, rfl⟩⟩⟩
    · rintro ⟨ns, rfl, h⟩
      obtain ⟨bits, narrowed, h⟩ := Except.bind_eq_ok_iff.1 h
      obtain ⟨ns, copied, ⟨⟩⟩ := Except.bind_eq_ok_iff.1 h
      refine ⟨_, decodeInto_number.2 ⟨bits, rfl, narrowed⟩, Except.bind_eq_ok_iff.2 ⟨_, ih.2 ⟨ns, rfl, copied⟩, rfl⟩⟩

theorem exists_numbers_of_decodeInto {olds : List type.Bits} (h : decodeInto S L room (.numbers type olds) j = .ok v) :
    ∃ ns, v = .numbers type ns := by
  cases room with
  | zero => cases h
  | succ room =>
    cases decodeInto_eq_ok_iff.1 h with
    | clear optional => cases optional
    | fill optional => cases optional
    | @numbers _ _ ns _ few copied => exact ⟨ns, rfl⟩

/-- **A tree is decoded into numbers each for itself as it is into a block**, whatever was there before. -/
theorem decodeInto_loose {room' : Nat} {olds olds' : List type.Bits} :
    decodeInto S L (room + 2) (.loose type olds) j = .ok v ↔
      ∃ ns, v = .loose type ns ∧ decodeInto S L (room' + 1) (.numbers type olds') j = .ok (.numbers type ns) := by
  rw [Value.loose, decodeInto_eq_ok_iff]
  constructor
  · intro h
    cases h with
    | clear optional => cases optional
    | fill optional => cases optional
    | sequence few decoded =>
      obtain ⟨ns, rfl, copied⟩ := mapM_targets_loose.1 decoded
      exact ⟨ns, rfl, decodeInto_eq_ok_iff.2 (.numbers few copied)⟩
  · rintro ⟨ns, rfl, h⟩
    cases decodeInto_eq_ok_iff.1 h with
    | numbers few copied => exact .sequence few (mapM_targets_loose.2 ⟨ns, rfl, copied⟩)

end Decoding

end Json

/-!
## Packed bytes
-/

namespace Packed

open Cursor (Passes)

section Numbers

variable {S : Schema} {L : Limits} {data : Bytes} {room : Nat} {type : ScalarType} {c c' : Cursor}

theorem writeAll_leaves (ns : List type.Bits) : writeAll (Value.leaves type ns) = .ok (ns.flatMap type.bytesOf) := by
  induction ns with
  | nil => rw [Value.leaves, List.map_nil, writeAll, List.flatMap_nil]
  | cons bits ns ih =>
    rw [Value.leaves_cons, writeAll, ih, write, writeLeaf, List.flatMap_cons]
    rfl

theorem write_loose (ns : List type.Bits) : write (.numbers type ns) = write (.loose type ns) := by
  rw [Value.loose, write, write, writeAll_leaves, Value.length_leaves]
  rfl

theorem readNumber_eq_ok_iff {v : Value} : readValue S L data (room + 1) (.leaf (.number type)) c = (.ok v, c') ↔
    ∃ bits : type.Bits, v = .leaf (.number ⟨type, bits⟩) ∧ Passes data c (type.bytesOf bits) c' := by
  rw [readValue, Reading.map_eq_ok_iff]
  constructor
  · rintro ⟨l, read, rfl⟩
    obtain ⟨htype, bytes, written, passes⟩ := readLeaf_eq_ok_iff.1 read
    cases l with
    | number n =>
      cases htype
      cases written
      exact ⟨n.bits, rfl, passes⟩
    | _ => cases htype
  · rintro ⟨bits, rfl, passes⟩
    exact ⟨.number ⟨type, bits⟩, readLeaf_eq_ok_iff.2 ⟨rfl, _, rfl, passes⟩, rfl⟩

/-- So many numbers, each for itself, are read where the bytes of all of them stand. -/
theorem mapM_readNumber : ∀ {count : Nat} {c : Cursor} {vs : List Value}, c.pos ≤ data.length →
    ((List.replicate count (.leaf (.number type))).mapM (readValue S L data (room + 1)) c = (.ok vs, c') ↔
      ∃ ns, vs = Value.leaves type ns ∧ ns.length = count ∧ Passes data c (ns.flatMap type.bytesOf) c')
  | 0, c, vs, inside => by
    rw [List.replicate_zero, List.mapM_nil, Reading.pure_eq_ok_iff]
    constructor
    · rintro ⟨rfl, rfl⟩
      exact ⟨[], rfl, rfl, .nil inside⟩
    · rintro ⟨ns, rfl, none, passes⟩
      obtain rfl := List.length_eq_zero_iff.1 none
      exact ⟨rfl, (Cursor.Passes.nil_iff.1 passes).1⟩
  | count + 1, c, vs, inside => by
    rw [List.replicate_succ, List.mapM_cons, Reading.bind_eq_ok_iff]
    constructor
    · rintro ⟨v, m, first, h⟩
      obtain ⟨ws, m', rest, h⟩ := Reading.bind_eq_ok_iff.1 h
      obtain ⟨rfl, rfl⟩ := Reading.pure_eq_ok_iff.1 h
      obtain ⟨bits, rfl, front⟩ := readNumber_eq_ok_iff.1 first
      obtain ⟨ns, rfl, rfl, back⟩ := (mapM_readNumber front.stop_le).1 rest
      exact ⟨bits :: ns, rfl, rfl, front.append back⟩
    · rintro ⟨ns, rfl, length, passes⟩
      obtain ⟨bits, ns, rfl⟩ := List.exists_cons_of_length_eq_add_one length
      obtain ⟨m, front, back⟩ := Passes.split (List.flatMap_cons ▸ passes)
      refine ⟨_, m, readNumber_eq_ok_iff.2 ⟨bits, rfl, front⟩, Reading.bind_eq_ok_iff.2 ⟨Value.leaves type ns, c', ?_, rfl⟩⟩
      exact (mapM_readNumber front.stop_le).2 ⟨ns, rfl, Nat.succ.inj length, back⟩

/-- **Numbers each for themselves are read exactly where a block of them is read**, and the cursor goes as far. -/
theorem readValue_loose {room' : Nat} {v : Value} :
    readValue S L data (room + 2) (.sequence (.leaf (.number type))) c = (.ok v, c') ↔
      ∃ ns, v = .loose type ns ∧ readValue S L data (room' + 1) (.numbers type) c = (.ok (.numbers type ns), c') := by
  rw [readSequence_eq_ok_iff]
  constructor
  · rintro ⟨vs, m, rfl, few, small, front, read⟩
    obtain ⟨ns, rfl, length, back⟩ := (mapM_readNumber front.stop_le).1 read
    rw [← length] at few small front
    exact ⟨ns, rfl, readNumbers_eq_ok_iff.2 ⟨ns, rfl, few, _, writeNumbers_eq_ok_iff.2 ⟨small, rfl⟩, front.append back⟩⟩
  · rintro ⟨ns, rfl, read⟩
    obtain ⟨ns', same, few, bytes, written, passes⟩ := readNumbers_eq_ok_iff.1 read
    cases same
    obtain ⟨small, rfl⟩ := writeNumbers_eq_ok_iff.1 written
    obtain ⟨m, front, back⟩ := passes.split
    have length : (Value.leaves type ns).length = ns.length := Value.length_leaves ns
    refine ⟨_, m, rfl, by rwa [length], by rwa [length], by rwa [length], ?_⟩
    exact (mapM_readNumber front.stop_le).2 ⟨ns, rfl, length.symm, back⟩

end Numbers

end Packed

/-- **Blocks are as good as numbers each for themselves.**  With room for the elements' level both are written as the same
text and the same bytes, and the same trees and bytes are read as the same numbers. -/
theorem blocks_agree (S : Schema) (type : ScalarType) :
    (∀ (layout : Json.Layout) (ns : List type.Bits),
      Json.render layout (.numbers type ns) = Json.render layout (.loose type ns)) ∧
    (∀ ns : List type.Bits, Packed.write (.numbers type ns) = Packed.write (.loose type ns)) ∧
    ∀ L : Limits, 1 ≤ L.maxDepth →
      (∀ tree, SameNumbers type (Json.decode S L (.numbers type) tree)
        (Json.decode S L (.sequence (.leaf (.number type))) tree)) ∧
      ∀ data, SameNumbers type (Packed.read S L (.numbers type) data)
        (Packed.read S L (.sequence (.leaf (.number type))) data) := by
  refine ⟨fun _ => Json.render_loose, Packed.write_loose, fun L deep => ?_⟩
  obtain ⟨room, depth⟩ := Nat.exists_eq_add_of_le' deep
  constructor
  · intro tree
    refine sameNumbers_of_iff (fun _ => Json.exists_numbers_of_decodeInto) fun v => ?_
    rw [Json.decode, Json.decode, depth, Schema.initial, Schema.initial]
    show Json.decodeInto S L (room + 2) (.loose type []) tree = .ok v ↔ _
    exact Json.decodeInto_loose
  · intro data
    refine sameNumbers_of_iff (fun v had => ?_) fun v => ?_
    · obtain ⟨c, read, -⟩ := Packed.read_eq_ok_iff.1 had
      obtain ⟨ns, rfl, -⟩ := Packed.readNumbers_eq_ok_iff.1 read
      exact ⟨ns, rfl⟩
    · simp only [Packed.read_eq_ok_iff, depth]
      constructor
      · rintro ⟨c, read, atEnd⟩
        obtain ⟨ns, rfl, read⟩ := Packed.readValue_loose.1 read
        exact ⟨ns, rfl, c, read, atEnd⟩
      · rintro ⟨ns, rfl, c, read, atEnd⟩
        exact ⟨c, Packed.readValue_loose.2 ⟨ns, rfl, read⟩, atEnd⟩

theorem blocks_agree_pair :
    Json.render ⟨' ', false⟩ (.numbers .uint16 [1#16, 0xffff#16]) =
      Json.render ⟨' ', false⟩ (.loose .uint16 [1#16, 0xffff#16]) ∧
    Packed.write (.numbers .uint16 [1#16, 0xffff#16]) = Packed.write (.loose .uint16 [1#16, 0xffff#16]) ∧
    1 ≤ ({ maxDepth := 1 } : Limits).maxDepth ∧
    Json.decode {} { maxDepth := 1 } (.sequence (.leaf (.number .uint16)))
      (.array [.number (.uint 1), .number (.uint 0xffff)]) = .ok (.loose .uint16 [1#16, 0xffff#16]) ∧
    Packed.read {} { maxDepth := 1 } (.sequence (.leaf (.number .uint16))) [2, 0, 0, 0, 1, 0, 0xff, 0xff] =
      .ok (.loose .uint16 [1#16, 0xffff#16]) := by
  obtain ⟨text, bytes, same⟩ := blocks_agree {} .uint16
  obtain ⟨trees, files⟩ := same { maxDepth := 1 } (by decide)
  exact ⟨text _ _, bytes _, by decide, (trees _).of_block rfl, (files _).of_block rfl⟩

/-- Without room for the elements' level there is a difference. -/
example : (Packed.read {} { maxDepth := 0 } (.sequence (.leaf (.number .uint8))) [1, 0, 0, 0, 7]).toOption = none ∧
    Packed.read {} { maxDepth := 0 } (.numbers .uint8) [1, 0, 0, 0, 7] = .ok (.numbers .uint8 [7#8]) :=
  ⟨rfl, rfl⟩

end AssetRecords
