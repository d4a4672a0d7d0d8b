import AssetRecords.Proofs.Asset.Limits
import AssetRecords.Proofs.DebugText.Limits
import AssetRecords.Proofs.Json.Limits
import AssetRecords.Proofs.Packed.Limits
import AssetRecords.Proofs.Truncation
/-!
# Limits — what limits do to what is read

In every format limits decide whether something is read and never what (`limits_only_refuse`), and what is read is
within them.
-/
namespace AssetRecords

namespace Json

variable {parse : List Char → Option Json} {S : Schema} {L L' : Limits} {shape : Shape} {text : String} {v : Value}

theorem readWith_eq_ok_iff : readWith parse S L shape text = .ok v ↔
    ∃ tree, parse text.toList = some tree ∧ decode S L shape tree = .ok v := by
  unfold readWith
  cases parse text.toList with
  | none => exact ⟨nofun, fun ⟨_, h, _⟩ => nomatch h⟩
  | some tree => exact ⟨fun h => ⟨tree, rfl, h⟩, fun ⟨_, h, h'⟩ => by cases h; exact h'⟩

theorem readWith_mono (le : L ≤ L') (h : readWith parse S L shape text = .ok v) :
    readWith parse S L' shape text = .ok v := by
  obtain ⟨tree, parsed, decoded⟩ := readWith_eq_ok_iff.1 h
  exact readWith_eq_ok_iff.2 ⟨tree, parsed, decode_mono le decoded⟩

end Json

/-- **Limits only ever refuse, and they are enforced.**  What is read under limits is read as the same under limits that
allow more: a tree or a text of the three general formats, whatever the shape and whatever parser makes the trees, and
an armature, a level or a placeholder.  What is read in one of the general formats has no sequence and no buffer with
more elements than the limits allow, where the decoder of trees starts from values that have no elements anywhere; and
what is read from debug text or packed bytes has no more levels of parts than they allow, the numbers of a sequence
being a level in debug text alone. -/
theorem limits_only_refuse (S : Schema) (shape : Shape) :
    (∀ L L' : Limits, L ≤ L' →
      (∀ tree v, Json.decode S L shape tree = .ok v → Json.decode S L' shape tree = .ok v) ∧
      (∀ parse text v, Json.readWith parse S L shape text = .ok v → Json.readWith parse S L' shape text = .ok v) ∧
      (∀ text v, DebugText.read S L shape text = .ok v → DebugText.read S L' shape text = .ok v) ∧
      (∀ data v, Packed.read S L shape data = .ok v → Packed.read S L' shape data = .ok v) ∧
      (∀ content a, Armature.read L content = .ok a → Armature.read L' content = .ok a) ∧
      (∀ content l, Level.read L content = .ok l → Level.read L' content = .ok l) ∧
      (∀ content p, Placeholder.read L content = .ok p → Placeholder.read L' content = .ok p)) ∧
    (∀ L : Limits,
      (S.StartsWithin 0 (S.initial shape) → ∀ tree v, Json.decode S L shape tree = .ok v →
        v.CountsWithin L.maxElements) ∧
      (∀ text v, DebugText.read S L shape text = .ok v → v.CountsWithin L.maxElements ∧ v.depth 1 ≤ L.maxDepth) ∧
      (∀ data v, Packed.read S L shape data = .ok v → v.CountsWithin L.maxElements ∧ v.depth 0 ≤ L.maxDepth)) := by
  refine ⟨fun L L' le => ?_, fun L => ⟨?_, ?_, ?_⟩⟩
  · refine ⟨fun tree v => Json.decode_mono le, fun parse text v => Json.readWith_mono le,
      fun text v => DebugText.read_of_lexemes le rfl, fun data v => Packed.read_mono le, ?_, ?_, ?_⟩
    · exact fun content a => Asset.readContent_mono fun data => Armature.follows_data le
    · exact fun content l => Asset.readContent_mono fun data => Level.follows_data le
    · exact fun content p => Asset.readContent_mono fun data => Placeholder.follows_data le
  · exact fun start tree v h => Json.countsWithin_of_decode start h
  · intro text v h
    have held := DebugText.held_of_read h
    exact ⟨held.counts, Nat.le_of_lt_succ held.depth⟩
  · intro data v h
    have held := Packed.held_of_read h
    exact ⟨held.counts, Nat.le_of_lt_succ held.depth⟩

/-- A list of two truth values, and files of each kind, under limits that they just keep to. -/
theorem limits_only_refuse_specimens :
    let v : Value := .sequence (.leaf .bool) [.leaf (.bool true), .leaf (.bool false)]
    let shape : Shape := .sequence (.leaf .bool)
    let L : Limits := ⟨1, 2⟩
    let L' : Limits := ⟨2, 8⟩
    L ≤ L' ∧ L' ≤ {} ∧
      Json.decode {} L shape (.array [.bool true, .bool false]) = .ok v ∧
      Json.decode {} L' shape (.array [.bool true, .bool false]) = .ok v ∧
      Json.read {} L' shape "[true, false]" = .ok v ∧ DebugText.read {} L' shape "[true, false]" = .ok v ∧
      Packed.read {} L' shape [2, 0, 0, 0, 1, 0] = .ok v ∧
      (∃ a, Armature.read L' Armature.specimenFile = .ok a ∧ Armature.read {} Armature.specimenFile = .ok a) ∧
      (∃ l, Level.read L' Level.barren = .ok l ∧ Level.read {} Level.barren = .ok l) ∧
      (∃ p, Placeholder.read L' Placeholder.hollow = .ok p ∧ Placeholder.read {} Placeholder.hollow = .ok p) ∧
      Schema.StartsWithin {} 0 (Schema.initial {} shape) ∧ v.CountsWithin 2 ∧ v.depth 1 ≤ 1 ∧ v.depth 0 ≤ 1 := by
  intro v shape L L'
  have le : L ≤ L' := by decide
  have le' : L' ≤ {} := by decide
  obtain ⟨mono, held⟩ := limits_only_refuse {} shape
  obtain ⟨decodes, reads, debugs, packs, -⟩ := mono L L' le
  obtain ⟨-, -, -, -, armatures, levels, placeholders⟩ := mono L' {} le'
  obtain ⟨counts, debugHeld, packedHeld⟩ := held L
  obtain ⟨a, ha⟩ := Except.exists_of_isOk (show (Armature.read L' Armature.specimenFile).isOk = true by decide +kernel)
  obtain ⟨l, hl⟩ := Except.exists_of_isOk (show (Level.read L' Level.barren).isOk = true by decide +kernel)
  obtain ⟨p, hp⟩ := Except.exists_of_isOk (show (Placeholder.read L' Placeholder.hollow).isOk = true by decide +kernel)
  have tree : Json.decode {} L shape (.array [.bool true, .bool false]) = .ok v := rfl
  have starts : Schema.StartsWithin {} 0 (Schema.initial {} shape) :=
    Schema.startsWithin_of_parts (Nat.zero_le _) nofun fun _ filler => by
      cases filler
      exact Schema.startsWithin_of_parts (Nat.zero_le _) nofun nofun
  exact ⟨le, le', tree, decodes _ _ tree, reads Json.parse? _ _ rfl, debugs _ _ rfl, packs _ _ rfl,
    ⟨a, ha, armatures _ _ ha⟩, ⟨l, hl, levels _ _ hl⟩, ⟨p, hp, placeholders _ _ hp⟩, starts, counts starts _ _ tree,
    (debugHeld "[true, false]" v rfl).2, (packedHeld [2, 0, 0, 0, 1, 0] v rfl).2⟩

end AssetRecords
