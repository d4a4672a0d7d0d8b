import AssetRecords.Json.Window
import AssetRecords.Proofs.Json.Writer
import AssetRecords.Proofs.Utf8
/-!
# Window — what a window takes of a text

A piece that does not fit leaves no room for any later one, however short: what has been put only grows.  So a window
always holds the front of the text and behind that its own bytes (`Filling.Holds`), whatever the pieces are.
-/
namespace AssetRecords
namespace Json

theorem Window.toList_overwrite : ∀ {block : Array UInt8} {start : Nat} {bytes : Bytes},
    start + bytes.length ≤ block.size → (overwrite block start bytes).toList =
      block.toList.take start ++ bytes ++ block.toList.drop (start + bytes.length)
  | block, start, [], _ => by rw [overwrite, List.append_nil, List.length_nil, Nat.add_zero, List.take_append_drop]
  | block, start, b :: rest, h => by
    rw [List.length_cons] at h
    have inside : start < block.toList.length := by rw [Array.length_toList]; omega
    rw [overwrite, toList_overwrite (by rw [Array.size_setIfInBounds]; omega), Array.toList_setIfInBounds,
      List.set_eq_take_append_cons_drop, if_pos inside, List.length_cons]
    have front : (block.toList.take start).length = start := by rw [List.length_take]; omega
    have cut : ∀ rest : Bytes, block.toList.take start ++ b :: rest = (block.toList.take start ++ [b]) ++ rest := by simp
    have front' : (block.toList.take start ++ [b]).length = start + 1 := by rw [List.length_append, front]; rfl
    rw [cut, List.take_left' front', ← List.drop_drop, List.drop_left' front', List.drop_drop]
    simp only [List.append_assoc, List.cons_append, List.nil_append]
    congr 4
    omega

namespace Filling

/-- What a window holds when a text has been put into it: the front of the text as far as its pieces fitted, which is
all of it if there is room; and behind that what was there before. -/
structure Holds (original : Window) (text : Bytes) (f : Filling) : Prop where
  capacity : f.window.capacity = original.capacity
  required : f.required = text.length
  front : ∃ k ≤ text.length, k ≤ original.capacity ∧ (text.length ≤ original.capacity → k = text.length) ∧
    f.window.block.toList = text.take k ++ original.block.toList.drop k

theorem Holds.nil (w : Window) : Holds w [] { window := w } :=
  ⟨rfl, rfl, 0, Nat.le_refl _, Nat.zero_le _, fun _ => rfl, rfl⟩

/-- A piece is taken only if all before it have been: what has been put only grows. -/
theorem Holds.put {w : Window} {text : Bytes} {f : Filling} (h : Holds w text f) (piece : Bytes) :
    Holds w (text ++ piece) (f.put piece) := by
  obtain ⟨⟨block, capacity, inside⟩, required⟩ := f
  obtain ⟨rfl, rfl, k, hk, within, all, holds⟩ := h
  simp only at within all holds
  unfold Filling.put
  simp only
  by_cases fits : text.length + piece.length ≤ w.capacity
  · rw [if_pos fits]
    -- all before this piece fits as well, so none of it was left out
    obtain rfl := all (by omega)
    refine ⟨rfl, List.length_append.symm, (text ++ piece).length, Nat.le_refl _, ?_, fun _ => rfl, ?_⟩
    · rwa [List.length_append]
    · rw [List.take_length] at holds
      show (Window.overwrite _ _ _).toList = _
      rw [Window.toList_overwrite (Nat.le_trans fits inside), holds, List.take_left, List.take_length,
        List.length_append, ← List.drop_drop, List.drop_left, List.drop_drop]
  · rw [if_neg fits]
    refine ⟨rfl, List.length_append.symm, k, ?_, within, fun h => ?_, ?_⟩
    · rw [List.length_append]
      omega
    · rw [List.length_append] at h
      exact absurd h fits
    · rw [List.take_append_of_le_length hk]
      exact holds

theorem Holds.foldl {w : Window} {pieces : List (List Char)} : ∀ {bytes : Bytes} {f : Filling}, Holds w bytes f →
    Holds w (bytes ++ Utf8.encode pieces.flatten) (pieces.foldl (fun f piece => f.put (Utf8.encode piece)) f) := by
  induction pieces with
  | nil =>
    intro bytes f h
    rw [List.flatten_nil, List.foldl_nil]
    exact (List.append_nil bytes).symm ▸ h
  | cons piece rest ih =>
    intro bytes f h
    have step := ih (h.put (Utf8.encode piece))
    rw [List.foldl_cons, List.flatten_cons, Utf8.encode, List.flatMap_append, ← List.append_assoc]
    exact step

end Filling

/-- The text that the pieces of a value make up. -/
def fullText (layout : Layout) (v : Value) : List Char := (write layout 0 v).pieces.flatten

/-- After writing, a window holds the text as far as its pieces fitted, whether the value is refused or not. -/
theorem writeInto_eq (layout : Layout) (w : Window) (v : Value) :
    ∃ f : Filling, f.Holds w (Utf8.encode (fullText layout v)) ∧ writeInto layout w v =
      (match (write layout 0 v).refusal with | some e => .error e | none => f.finish, f.window) := by
  refine ⟨_, (Filling.Holds.nil w).foldl, ?_⟩
  unfold writeInto
  simp only
  cases (write layout 0 v).refusal <;> rfl

theorem Filling.Holds.finish_eq {w : Window} {text : Bytes} {f : Filling} (h : f.Holds w text) :
    f.finish = if text.length ≤ w.capacity then .ok text.length else .error (.windowTooSmall text.length w.capacity) := by
  rw [finish, h.capacity, h.required]
  by_cases fits : text.length ≤ w.capacity
  · rw [if_pos fits, if_neg (Nat.not_lt.2 fits)]
  · rw [if_neg fits, if_pos (Nat.not_le.1 fits)]

/-- Nothing is written behind a window. -/
theorem Filling.Holds.behind {w : Window} {text : Bytes} {f : Filling} (h : f.Holds w text) :
    f.window.block.toList.drop w.capacity = w.block.toList.drop w.capacity := by
  obtain ⟨k, hk, within, -, holds⟩ := h.front
  have front : (text.take k).length = k := by
    rw [List.length_take]
    exact Nat.min_eq_left hk
  rw [holds, List.drop_append, front, List.drop_drop, List.drop_eq_nil_of_le (Nat.le_trans (Nat.le_of_eq front) within),
    List.nil_append, Nat.add_sub_cancel' within]

/-- A text that fits is had again from the front of the block. -/
theorem Filling.Holds.textOf_eq {w : Window} {cs : List Char} {f : Filling} (h : f.Holds w (Utf8.encode cs))
    (fits : (Utf8.encode cs).length ≤ w.capacity) :
    textOf f.window.block (Utf8.encode cs).length = .ok (String.ofList cs) := by
  obtain ⟨k, hk, within, all, holds⟩ := h.front
  obtain rfl := all fits
  rw [textOf, holds, List.take_length, List.take_left, Utf8.decode_encode]

/-- The text of a value that is not refused comes out whole, however long it is. -/
theorem render_of_refusal_none {layout : Layout} {v : Value} (h : (write layout 0 v).refusal = none) :
    render layout v = .ok (String.ofList (fullText layout v)) := by
  obtain ⟨f, holds, wrote⟩ := writeInto_eq layout (.whole (Array.replicate initialCapacity 0)) v
  rw [h] at wrote
  unfold render
  rw [wrote]
  simp only
  rw [holds.finish_eq]
  by_cases fits : (Utf8.encode (fullText layout v)).length ≤ (Window.whole (Array.replicate initialCapacity 0)).capacity
  · rw [if_pos fits]
    exact holds.textOf_eq fits
  · rw [if_neg fits]
    simp only
    -- the second attempt has room for what the first one required
    generalize grown : f.window.block ++ Array.replicate
      ((Utf8.encode (fullText layout v)).length - f.window.block.size) 0 = block
    have room : (Utf8.encode (fullText layout v)).length ≤ (Window.whole block).capacity := by
      show _ ≤ block.size
      rw [← grown, Array.size_append, Array.size_replicate]
      omega
    obtain ⟨f', holds', wrote'⟩ := writeInto_eq layout (.whole block) v
    rw [h] at wrote'
    rw [wrote']
    simp only
    rw [holds'.finish_eq, if_pos room]
    exact holds'.textOf_eq room

/-- A refused value is refused as a text as well. -/
theorem render_of_refusal {layout : Layout} {v : Value} {e : Error} (h : (write layout 0 v).refusal = some e) :
    render layout v = .error e := by
  obtain ⟨f, -, wrote⟩ := writeInto_eq layout (.whole (Array.replicate initialCapacity 0)) v
  rw [h] at wrote
  unfold render
  rw [wrote]
  cases sound_write layout 0 v e h <;> rfl

end Json
end AssetRecords
