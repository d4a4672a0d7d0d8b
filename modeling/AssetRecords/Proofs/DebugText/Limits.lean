import AssetRecords.Proofs.DebugText.Whitespace
import AssetRecords.Proofs.Buffer
/-!
# Limits — the reader of debug text keeps to its limits

`Ensures` says what is known of the value of a read that succeeds, wherever it is made.  Elements are counted before they
are read or as they are, so that no list is longer than its count was allowed to become.
-/
namespace AssetRecords

namespace DebugText

variable {α β : Type}

/-- Whatever a read gives is so. -/
structure Ensures (read : Scan α) (P : α → Prop) : Prop where
  ensured : ∀ {s s' : Scanner} {a : α}, read s = .ok (a, s') → P a

section Ensuring

variable {read : Scan α} {P : α → Prop} {Q : β → Prop}

theorem ensures_true (read : Scan α) : Ensures read fun _ => True := ⟨fun _ => trivial⟩

theorem ensures_pure {a : α} (h : P a) : Ensures (pure a : Scan α) P := by
  refine ⟨fun run => ?_⟩
  cases run
  exact h

theorem ensures_liftM {e : Except Error α} (h : ∀ {a}, e = .ok a → P a) : Ensures (liftM e : Scan α) P :=
  ⟨fun run => h (Scan.liftM_eq_ok_iff.1 run).1⟩

theorem ensures_throw (e : Error) : Ensures (throw e) P := ⟨fun run => nomatch run⟩

theorem ensures_failWith (f : SyntaxFault) : Ensures (failWith f) P := by
  refine ⟨fun run => ?_⟩
  cases run

theorem Ensures.bind {next : α → Scan β} (h : Ensures read P) (h' : ∀ a, P a → Ensures (next a) Q) :
    Ensures (read >>= next) Q := by
  refine ⟨fun run => ?_⟩
  obtain ⟨a, m, first, second⟩ := Scan.bind_eq_ok_iff.1 run
  exact (h' a (h.ensured first)).ensured second

/-- What comes first does not matter. -/
theorem Ensures.behind {next : α → Scan β} (h : ∀ a, Ensures (next a) Q) : Ensures (read >>= next) Q :=
  (ensures_true read).bind fun a _ => h a

theorem Ensures.map {f : α → β} (h : Ensures read P) (h' : ∀ a, P a → Q (f a)) : Ensures (f <$> read) Q := by
  simp only [map_eq_pure_bind]
  exact h.bind fun a ha => ensures_pure (h' a ha)

theorem Ensures.mapM {read : β → Scan α} : ∀ {bs : List β}, (∀ b ∈ bs, Ensures (read b) P) →
    Ensures (bs.mapM read) fun as => ∀ a ∈ as, P a
  | [], _ => ensures_pure nofun
  | b :: bs, h => by
    obtain ⟨first, rest⟩ := List.forall_mem_cons.1 h
    rw [List.mapM_cons]
    exact first.bind fun a ha => (Ensures.mapM rest).bind fun as has =>
      ensures_pure (List.forall_mem_cons.2 ⟨ha, has⟩)

/-- An answer that is there before the closing bracket. -/
theorem ensures_close {a : α} (h : P a) : Ensures (do closeBracket; return a) P := .behind fun _ => ensures_pure h

theorem ensures_parts {first last : Char} {readers : List (Scan α)} (h : ∀ reader ∈ readers, Ensures reader P) :
    Ensures (parts first last readers) fun as => ∀ a ∈ as, P a := by
  refine .behind fun _ => ?_
  cases readers with
  | nil =>
    have none : Ensures (pure [] : Scan (List α)) fun as => ∀ a ∈ as, P a := ensures_pure (List.forall_mem_nil P)
    exact none.bind fun as has => ensures_close has
  | cons reader readers =>
    obtain ⟨head, tail⟩ := List.forall_mem_cons.1 h
    refine head.bind fun a ha => ?_
    refine (Ensures.mapM fun reader hr => .behind fun _ => tail reader hr).bind fun as has => ?_
    exact ensures_close (List.forall_mem_cons.2 ⟨ha, has⟩)

variable {element : Nat → Scan α} {most : Nat}

/-- An element that is told how many there are with it is refused when there are too many. -/
theorem ensures_elementsFrom (h : ∀ count, Ensures (element count) fun a => P a ∧ count ≤ most) : ∀ fuel count,
    Ensures (elementsFrom element fuel count) fun as => count + as.length ≤ most ∧ ∀ a ∈ as, P a
  | 0, _ => ensures_failWith _
  | fuel + 1, count => by
    rw [elementsFrom]
    refine (h (count + 1)).bind fun a ha => .behind fun b => ?_
    cases b with
    | true =>
      refine (ensures_elementsFrom h fuel (count + 1)).bind fun as has => ensures_pure ⟨?_, ?_⟩
      · rw [List.length_cons]
        omega
      · exact List.forall_mem_cons.2 ⟨ha.1, has.2⟩
    | false => exact ensures_pure ⟨ha.2, List.forall_mem_singleton.2 ha.1⟩

theorem ensures_elements (h : ∀ count, Ensures (element count) fun a => P a ∧ count ≤ most) :
    Ensures (elements element) fun as => as.length ≤ most ∧ ∀ a ∈ as, P a := by
  refine .behind fun _ => .behind fun found => ?_
  dsimp only
  split
  · have none : Ensures (pure [] : Scan (List α)) fun as => as.length ≤ most ∧ ∀ a ∈ as, P a :=
      ensures_pure ⟨Nat.zero_le _, List.forall_mem_nil P⟩
    exact none.bind fun as has => ensures_close has
  · refine .behind fun s => (ensures_elementsFrom h s.fuel 0).bind fun as has => ensures_close ?_
    rwa [Nat.zero_add] at has

end Ensuring

variable {S : Schema} {L : Limits}

theorem ensures_number (count : Nat) : Ensures (readNumber L count) fun _ => True ∧ count ≤ L.maxElements := by
  refine .behind fun token => ?_
  cases Number.parse? token with
  | none => exact ensures_failWith _
  | some n =>
    refine (ensures_liftM fun admitted => Limits.checkCount_eq_ok_iff.1 admitted).bind fun _ few => ?_
    exact ensures_pure ⟨trivial, few⟩

theorem ensures_buffer : Ensures (readBuffer L) fun b => b.length ≤ L.maxElements := by
  refine .behind fun name => ?_
  dsimp only
  cases ScalarType.ofName? (String.ofList name) with
  | none => exact ensures_failWith _
  | some type =>
    refine (ensures_elements ensures_number).bind fun ns hns => ensures_liftM fun made => ?_
    rw [(Buffer.exists_of_ofNumbers made).2.1]
    exact hns.1

/-- **What is read is held within the limits**, the numbers of a sequence being a level of their own. -/
theorem held_of_readValue : ∀ (room : Nat) (shape : Shape),
    Ensures (readValue S L room shape) fun v => v.Held 1 L.maxElements room
  | 0, _ => ensures_throw _
  | room + 1, shape => by
    have ih := held_of_readValue room
    have counted : ∀ count, Ensures (liftM (L.checkCount count) : Scan Unit) fun _ => count ≤ L.maxElements :=
      fun count => ensures_liftM Limits.checkCount_eq_ok_iff.1
    cases shape with
    | leaf type => exact (ensures_true _).map fun l _ => Value.held_of_parts (Nat.zero_le _) nofun nofun
    | enum table initial =>
      exact .behind fun _ => .behind fun _ => ensures_pure (Value.held_of_parts (Nat.zero_le _) nofun nofun)
    | record name =>
      have field : ∀ f : FieldType, Ensures (do return (f.key, ← readValue S L room f.shape)) fun m =>
          m.2.Held 1 L.maxElements room := fun f => (ih f.shape).bind fun v hv => ensures_pure hv
      refine Ensures.map (ensures_parts (List.forall_mem_map.2 fun f _ => field f)) fun fields hfields => ?_
      exact Value.held_of_parts (Nat.zero_le _) (List.forall_mem_map.2 hfields) nofun
    | tuple elements =>
      refine Ensures.map (ensures_parts (List.forall_mem_map.2 fun e _ => ih e)) fun vs hvs => ?_
      exact Value.held_of_parts (Nat.zero_le _) hvs nofun
    | vector xs =>
      refine Ensures.map (ensures_parts (List.forall_mem_map.2 fun _ _ => ih _)) fun vs hvs => ?_
      exact Value.held_of_parts (Nat.zero_le _) hvs nofun
    | numbers type =>
      have each : ∀ count, Ensures (do
          L.checkCount count
          if room = 0 then throw (.depthLimit L.maxDepth)
          type.parse (← token)) fun _ => 1 ≤ room ∧ count ≤ L.maxElements := by
        refine fun count => (counted count).bind fun _ few => ?_
        by_cases none : room = 0
        · rw [if_pos none]
          exact ⟨fun run => nomatch run⟩
        · rw [if_neg none]
          exact ⟨fun _ => ⟨Nat.pos_of_ne_zero none, few⟩⟩
      refine (ensures_elements each).map fun ns hns => Value.held_of_parts hns.1 nofun ?_
      rintro _ _ ⟨⟩ some
      obtain ⟨n, hn⟩ := List.exists_mem_of_ne_nil ns some
      exact hns.2 n hn
    | sequence element =>
      have each : ∀ count, Ensures (do L.checkCount count; readValue S L room element) fun v =>
          v.Held 1 L.maxElements room ∧ count ≤ L.maxElements := fun count =>
        (counted count).bind fun _ few => ⟨fun run => ⟨(ih element).ensured run, few⟩⟩
      exact (ensures_elements each).map fun vs hvs => Value.held_of_parts hvs.1 hvs.2 nofun
    | buffer => exact ensures_buffer.map fun b few => Value.held_of_parts few nofun nofun
    | optional content =>
      refine .behind fun s => ?_
      split
      · exact .behind fun _ => ensures_pure (Value.held_of_parts (Nat.zero_le _) nofun nofun)
      · exact (ih content).bind fun v hv =>
          ensures_pure (Value.held_of_parts (Nat.zero_le _) (List.forall_mem_singleton.2 hv) nofun)

variable {shape : Shape} {text : String} {v : Value}

theorem held_of_read (h : read S L shape text = .ok v) : v.Held 1 L.maxElements (L.maxDepth + 1) := by
  obtain ⟨s, run, -⟩ := read_eq_ok_iff.1 h
  exact (held_of_readValue _ shape).ensured run

end DebugText
end AssetRecords
