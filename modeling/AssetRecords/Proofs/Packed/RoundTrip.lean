import AssetRecords.Proofs.Packed.Parts
/-!
# RoundTrip — packed bytes and the values they stand for

Reading undoes writing wherever the bytes stand (`readValue_of_write`), and whatever is read is written as the bytes
that were passed (`write_of_readValue`).  Both are by induction on the room for levels of parts: a part is read with one
level less.
-/
namespace AssetRecords
namespace Packed

open Cursor (Passes)

theorem writeFields_eq (fields : List (String × Value)) : writeFields fields = writeAll (fields.map (·.2)) := by
  induction fields with
  | nil => rw [writeFields, List.map_nil, writeAll]
  | cons f rest ih => rw [writeFields, List.map_cons, writeAll, ih]

theorem writeAll_cons_eq_ok_iff {v : Value} {vs : List Value} {b : Bytes} :
    writeAll (v :: vs) = .ok b ↔ ∃ first rest, write v = .ok first ∧ writeAll vs = .ok rest ∧ b = first ++ rest := by
  rw [writeAll, Except.bind_eq_ok_iff]
  constructor
  · rintro ⟨first, hfirst, h⟩
    obtain ⟨rest, hrest, ⟨⟩⟩ := Except.bind_eq_ok_iff.1 h
    exact ⟨first, rest, hfirst, hrest, rfl⟩
  · rintro ⟨first, rest, hfirst, hrest, rfl⟩
    exact ⟨first, hfirst, Except.bind_eq_ok_iff.2 ⟨rest, hrest, rfl⟩⟩

theorem writeSequence_eq_ok_iff {element : Shape} {vs : List Value} {bytes : Bytes} :
    write (.sequence element vs) = .ok bytes ↔
      vs.length < Nat.pow 256 4 ∧ ∃ rest, writeAll vs = .ok rest ∧ bytes = littleEndian 4 vs.length ++ rest := by
  rw [write, Except.bind_eq_ok_iff]
  constructor
  · rintro ⟨length, hlength, h⟩
    obtain ⟨rest, hrest, ⟨⟩⟩ := Except.bind_eq_ok_iff.1 h
    obtain ⟨small, rfl⟩ := count_eq_ok_iff.1 hlength
    exact ⟨small, rest, hrest, rfl⟩
  · rintro ⟨small, rest, hrest, rfl⟩
    exact ⟨_, count_eq_ok_iff.2 ⟨small, rfl⟩, Except.bind_eq_ok_iff.2 ⟨rest, hrest, rfl⟩⟩

theorem writeEnum_eq_ok_iff {table : EnumTable} {variant : Nat} {bytes : Bytes} :
    write (.enum table variant) = .ok bytes ↔
      ∃ ordinal, table.ordinal variant = .ok ordinal ∧ ordinal < Nat.pow 256 2 ∧ bytes = littleEndian 2 ordinal := by
  rw [write, Except.bind_eq_ok_iff]
  constructor
  · rintro ⟨ordinal, hordinal, h⟩
    exact ⟨ordinal, hordinal, count_eq_ok_iff.1 h⟩
  · rintro ⟨ordinal, hordinal, h⟩
    exact ⟨ordinal, hordinal, count_eq_ok_iff.2 h⟩

/-- Where the bytes of values stand, they are read one after the other. -/
theorem mapM_of_writeAll {S : Schema} {data : Bytes} {read : Shape → Reading Value} {vs : List Value}
    {shapes : List Shape}
    (hread : ∀ v ∈ vs, ∀ s b c c', S.HasShape v s → write v = .ok b → Passes data c b c' → read s c = (.ok v, c'))
    (fits : List.Forall₂ S.HasShape vs shapes) {b : Bytes} {c c' : Cursor} (written : writeAll vs = .ok b)
    (passes : Passes data c b c') : shapes.mapM read c = (.ok vs, c') := by
  induction fits generalizing b c with
  | nil =>
    rw [writeAll] at written
    cases written
    rw [(Cursor.Passes.nil_iff.1 passes).1]
    rfl
  | @cons v s vs shapes fit _ ih =>
    obtain ⟨first, rest, hfirst, hrest, rfl⟩ := writeAll_cons_eq_ok_iff.1 written
    obtain ⟨m, front, back⟩ := passes.split
    rw [List.mapM_cons]
    refine Reading.bind_eq_ok_iff.2 ⟨v, m, hread v List.mem_cons_self s first c m fit hfirst front, ?_⟩
    refine Reading.bind_eq_ok_iff.2 ⟨vs, c', ih (fun v hv => hread v (List.mem_cons_of_mem _ hv)) hrest back, rfl⟩

/-- Values that are read one after the other are written as the bytes passed. -/
theorem writeAll_of_mapM {data : Bytes} {read : Shape → Reading Value} {shapes : List Shape}
    (hread : ∀ s ∈ shapes, ∀ v c c', c.pos ≤ data.length → read s c = (.ok v, c') →
      ∃ b, write v = .ok b ∧ Passes data c b c') {vs : List Value} {c c' : Cursor} (hc : c.pos ≤ data.length)
    (h : shapes.mapM read c = (.ok vs, c')) : ∃ b, writeAll vs = .ok b ∧ Passes data c b c' := by
  induction shapes generalizing vs c with
  | nil =>
    rw [List.mapM_nil] at h
    obtain ⟨rfl, rfl⟩ := Reading.pure_eq_ok_iff.1 h
    exact ⟨[], by rw [writeAll], .nil hc⟩
  | cons s shapes ih =>
    rw [List.mapM_cons] at h
    obtain ⟨v, m, hv, h⟩ := Reading.bind_eq_ok_iff.1 h
    obtain ⟨rest, m', hrest, h⟩ := Reading.bind_eq_ok_iff.1 h
    obtain ⟨rfl, rfl⟩ := Reading.pure_eq_ok_iff.1 h
    obtain ⟨b, hb, front⟩ := hread s List.mem_cons_self v c m hc hv
    obtain ⟨b', hb', back⟩ := ih (fun s hs => hread s (List.mem_cons_of_mem _ hs)) front.stop_le hrest
    exact ⟨b ++ b', writeAll_cons_eq_ok_iff.2 ⟨b, b', hb, hb', rfl⟩, front.append back⟩

/-- **Where the bytes of a value stand, the value is read, and the cursor passes them.** -/
theorem readValue_of_write {S : Schema} {L : Limits} {data : Bytes} {room : Nat} {shape : Shape} {v : Value} {b : Bytes}
    {c c' : Cursor} (fits : S.HasShape v shape) (written : write v = .ok b) (deep : v.depth 0 < room)
    (wide : v.CountsWithin L.maxElements) (passes : Passes data c b c') :
    readValue S L data room shape c = (.ok v, c') := by
  -- the reader recurs on the room, so the induction is on that; the depth says that it lasts
  induction room generalizing shape v b c c' with
  | zero => omega
  | succ room ih =>
    have parts : ∀ p ∈ v.parts, ∀ s b c c', S.HasShape p s → write p = .ok b → Passes data c b c' →
        readValue S L data room s c = (.ok p, c') := by
      intro p hp s b c c' hfits hb hpasses
      have deeper : p.depth 0 < v.depth 0 := Value.depth_lt_of_mem_parts hp
      exact ih hfits hb (by omega) (wide.part hp) hpasses
    cases fits with
    | leaf l =>
      rw [write] at written
      rw [readValue, Reading.map_eq_ok_iff]
      exact ⟨l, readLeaf_eq_ok_iff.2 ⟨rfl, b, written, passes⟩, rfl⟩
    | enum table variant initial =>
      obtain ⟨ordinal, hordinal, small, rfl⟩ := writeEnum_eq_ok_iff.1 written
      have found := EnumTable.byOrdinal?_of_ordinalOf? (EnumTable.ordinal_eq_ok_iff.1 hordinal)
      exact readEnum_eq_ok_iff.2 ⟨ordinal, variant, rfl, found, small, passes⟩
    | @record name fields keys shapes =>
      rw [write, writeFields_eq] at written
      have together : (fields.map (·.1)).zip (fields.map (·.2)) = fields := (List.zip_of_prod rfl rfl).symm
      have read := mapM_of_writeAll parts shapes written passes
      refine readRecord_eq_ok_iff.2 ⟨_, ?_, read⟩
      rw [← keys, Value.parts, together]
    | tuple shapes =>
      rw [write] at written
      rw [readValue, Reading.map_eq_ok_iff]
      exact ⟨_, mapM_of_writeAll parts shapes written passes, rfl⟩
    | @vector vs xs shapes =>
      rw [write] at written
      rw [List.map_const'] at shapes
      exact readVector_eq_ok_iff.2 ⟨vs, rfl, mapM_of_writeAll parts shapes written passes⟩
    | numbers type ns => exact readNumbers_eq_ok_iff.2 ⟨ns, rfl, wide.self, b, written, passes⟩
    | @sequence element vs shapes =>
      obtain ⟨small, rest, hrest, rfl⟩ := writeSequence_eq_ok_iff.1 written
      obtain ⟨m, front, back⟩ := passes.split
      have shapes : List.Forall₂ S.HasShape vs (List.replicate vs.length element) := by
        rw [← List.map_const', List.forall₂_map_right_iff]
        exact List.forall₂_same.2 shapes
      have read := mapM_of_writeAll parts shapes hrest back
      exact readSequence_eq_ok_iff.2 ⟨vs, m, rfl, wide.self, small, front, read⟩
    | buffer wf =>
      rw [write] at written
      rw [readValue, Reading.map_eq_ok_iff]
      exact ⟨_, readBuffer_eq_ok_iff.2 ⟨wf, wide.self, b, written, passes⟩, rfl⟩
    | absent content =>
      rw [write] at written
      cases written
      exact readOptional_eq_ok_iff.2 (.inl ⟨rfl, passes⟩)
    | @present content v fit =>
      rw [write, Except.bind_eq_ok_iff] at written
      obtain ⟨rest, hrest, ⟨⟩⟩ := written
      obtain ⟨m, front, back⟩ := Passes.split (a := [1]) passes
      have read := parts v List.mem_cons_self content rest m c' fit hrest back
      exact readOptional_eq_ok_iff.2 (.inr ⟨v, m, rfl, front, read⟩)

/-- **Whatever is read is written as the bytes that were passed**, if no enum table lists a variant twice. -/
theorem write_of_readValue {S : Schema} {L : Limits} {data : Bytes} {room : Nat} {shape : Shape} {v : Value}
    {c c' : Cursor} (distinct : ∀ table initial, S.Contains (.enum table initial) shape → (table.rows.map (·.1)).Nodup)
    (hc : c.pos ≤ data.length) (h : readValue S L data room shape c = (.ok v, c')) :
    ∃ b, write v = .ok b ∧ Passes data c b c' := by
  induction room generalizing shape v c c' with
  | zero => exact absurd h Reading.throw_ne_ok
  | succ room ih =>
    -- whatever occurs in the shape of a part occurs in the whole, so its tables are distinct as well
    have parts : ∀ {shapes : List Shape}, (∀ s ∈ shapes, ∀ t, S.Contains t s → S.Contains t shape) → ∀ s ∈ shapes,
        ∀ v c c', c.pos ≤ data.length → readValue S L data room s c = (.ok v, c') →
          ∃ b, write v = .ok b ∧ Passes data c b c' := fun within s hs v c c' =>
      ih fun table initial h => distinct table initial (within s hs _ h)
    cases shape with
    | leaf type =>
      rw [readValue] at h
      obtain ⟨l, hl, rfl⟩ := Reading.map_eq_ok_iff.1 h
      obtain ⟨-, b, hb, passes⟩ := readLeaf_eq_ok_iff.1 hl
      exact ⟨b, by rwa [write], passes⟩
    | enum table initial =>
      obtain ⟨ordinal, variant, rfl, found, small, passes⟩ := readEnum_eq_ok_iff.1 h
      have listed := EnumTable.ordinalOf?_of_byOrdinal? (distinct table initial .self) found
      exact ⟨_, writeEnum_eq_ok_iff.2 ⟨_, EnumTable.ordinal_eq_ok_iff.2 listed, small, rfl⟩, passes⟩
    | record name =>
      obtain ⟨vs, rfl, hvs⟩ := readRecord_eq_ok_iff.1 h
      have within : ∀ s ∈ (S.fieldsOf name).map (·.shape), ∀ t, S.Contains t s → S.Contains t (.record name) := by
        intro s hs t ht
        obtain ⟨f, hf, rfl⟩ := List.mem_map.1 hs
        exact .field hf ht
      obtain ⟨b, hb, passes⟩ := writeAll_of_mapM (parts within) hc hvs
      have length := Reading.length_of_mapM_eq_ok hvs
      refine ⟨b, ?_, passes⟩
      rw [write, writeFields_eq, List.map_snd_zip]
      · exact hb
      · exact Nat.le_of_eq (by rw [length, List.length_map, List.length_map])
    | tuple elements =>
      rw [readValue] at h
      obtain ⟨vs, hvs, rfl⟩ := Reading.map_eq_ok_iff.1 h
      obtain ⟨b, hb, passes⟩ := writeAll_of_mapM (parts fun s hs t ht => .element hs ht) hc hvs
      exact ⟨b, by rwa [write], passes⟩
    | vector xs =>
      obtain ⟨vs, rfl, hvs⟩ := readVector_eq_ok_iff.1 h
      have numbers : ∀ s ∈ List.replicate xs.length (.leaf (.number .float32)), ∀ v c c', c.pos ≤ data.length →
          readValue S L data room s c = (.ok v, c') → ∃ b, write v = .ok b ∧ Passes data c b c' := by
        intro s hs v c c'
        obtain rfl := List.eq_of_mem_replicate hs
        refine ih fun table initial h => ?_
        cases h
      obtain ⟨b, hb, passes⟩ := writeAll_of_mapM numbers hc hvs
      exact ⟨b, by rwa [write], passes⟩
    | numbers type =>
      obtain ⟨ns, rfl, -, h⟩ := readNumbers_eq_ok_iff.1 h
      exact h
    | sequence element =>
      obtain ⟨vs, m, rfl, -, small, front, hvs⟩ := readSequence_eq_ok_iff.1 h
      have within : ∀ s ∈ List.replicate vs.length element, ∀ t, S.Contains t s → S.Contains t (.sequence element) := by
        intro s hs t ht
        obtain rfl := List.eq_of_mem_replicate hs
        exact .sequence ht
      obtain ⟨b, hb, back⟩ := writeAll_of_mapM (parts within) front.stop_le hvs
      exact ⟨_, writeSequence_eq_ok_iff.2 ⟨small, b, hb, rfl⟩, front.append back⟩
    | buffer =>
      rw [readValue] at h
      obtain ⟨b, hb, rfl⟩ := Reading.map_eq_ok_iff.1 h
      obtain ⟨-, -, bytes, hbytes, passes⟩ := readBuffer_eq_ok_iff.1 hb
      exact ⟨bytes, by rwa [write], passes⟩
    | optional content =>
      rcases readOptional_eq_ok_iff.1 h with ⟨rfl, front⟩ | ⟨w, m, rfl, front, hw⟩
      · exact ⟨_, by rw [write], front⟩
      · obtain ⟨b, hb, back⟩ := ih (fun table initial h => distinct table initial (.optional h)) front.stop_le hw
        refine ⟨[1] ++ b, ?_, front.append back⟩
        rw [write, hb]
        rfl

/-- What is read ends at the end of the data. -/
theorem read_eq_ok_iff {S : Schema} {L : Limits} {shape : Shape} {data : Bytes} {v : Value} :
    read S L shape data = .ok v ↔
      ∃ c, readValue S L data (L.maxDepth + 1) shape {} = (.ok v, c) ∧ data.length ≤ c.pos := by
  unfold read
  rcases readValue S L data (L.maxDepth + 1) shape {} with ⟨e | w, c⟩
  · exact ⟨nofun, fun ⟨_, h, _⟩ => nomatch h⟩
  · simp only [Cursor.isAtEnd, decide_eq_true_eq]
    constructor
    · intro h
      split at h
      · cases h
        exact ⟨c, rfl, ‹_›⟩
      · cases h
    · rintro ⟨_, ⟨⟩, atEnd⟩
      rw [if_pos atEnd]

/-- **A value that was written is read wherever its bytes stand at the front**, whatever follows them, and the cursor
is behind its last byte; alone they are read as a whole. -/
theorem readValue_write_append {S : Schema} {L : Limits} {shape : Shape} {v : Value} {b : Bytes} (rest : Bytes)
    (fits : S.HasShape v shape) (written : write v = .ok b) (deep : v.depth 0 ≤ L.maxDepth)
    (wide : v.CountsWithin L.maxElements) :
    readValue S L (b ++ rest) (L.maxDepth + 1) shape {} = (.ok v, ⟨b.length⟩) ∧ read S L shape b = .ok v := by
  have front : ∀ rest, readValue S L (b ++ rest) (L.maxDepth + 1) shape {} = (.ok v, ⟨b.length⟩) := fun rest =>
    readValue_of_write fits written (by omega) wide ⟨[], rest, rfl, rfl, (Nat.zero_add _).symm⟩
  refine ⟨front rest, read_eq_ok_iff.2 ⟨⟨b.length⟩, ?_, Nat.le_refl _⟩⟩
  have alone := front []
  rwa [List.append_nil] at alone

theorem readValue_write_append_specimen : ∃ b, write (.specimen 0x7fa00001#32) = .ok b ∧
    readValue .nodes {} (b ++ [0xff]) 257 (.record "Node") {} = (.ok (.specimen 0x7fa00001#32), ⟨b.length⟩) ∧
    read .nodes {} (.record "Node") b = .ok (.specimen 0x7fa00001#32) :=
  ⟨_, rfl, readValue_write_append [0xff] (Schema.hasShape_specimen _) rfl (by decide) (by decide +kernel)⟩

/-- **What is read from bytes is written as those bytes**, so that no two files stand for one value. -/
theorem write_of_read {S : Schema} {L : Limits} {shape : Shape} {data : Bytes} {v : Value}
    (distinct : ∀ table initial, S.Contains (.enum table initial) shape → (table.rows.map (·.1)).Nodup)
    (h : read S L shape data = .ok v) :
    write v = .ok data ∧ ∀ L' data', read S L' shape data' = .ok v → data' = data := by
  have whole : ∀ L data, read S L shape data = .ok v → write v = .ok data := by
    intro L data h
    obtain ⟨c, hv, atEnd⟩ := read_eq_ok_iff.1 h
    obtain ⟨b, written, before, after, hdata, start, stop⟩ := write_of_readValue distinct (Nat.zero_le _) hv
    -- the cursor went from the start to the end, so there is nothing before the bytes and nothing after
    obtain rfl := List.length_eq_zero_iff.1 start.symm
    have size := congrArg List.length hdata
    simp only [List.length_append, List.length_nil] at size stop
    obtain rfl := List.length_eq_zero_iff.1 (show after.length = 0 by omega)
    rw [hdata, written, List.nil_append, List.append_nil]
  have written := whole L data h
  refine ⟨written, fun L' data' h' => ?_⟩
  have written' := whole L' data' h'
  rw [written, Except.ok.injEq] at written'
  exact written'.symm

theorem write_of_read_node :
    let bytes := [1, 0, 97, 1, 0, 1, 1, 0, 160, 127, 249, 255, 2, 0, 0, 0, 0, 4, 0, 0, 0, 0,
      2, 2, 0, 0, 0, 255, 255, 7, 0, 0]
    let v := Value.node "a" 0x7fa00001#32 [] (.absent (.vector [⟨0#32⟩]))
    read .nodes {} (.record "Node") bytes = .ok v ∧ write v = .ok bytes ∧
      ∀ L' bytes', read .nodes L' (.record "Node") bytes' = .ok v → bytes' = bytes :=
  ⟨rfl, write_of_read (L := {}) (fun _ _ => Schema.nodup_of_nodes) rfl⟩

end Packed
end AssetRecords
