import AssetRecords.Proofs.DebugText.Legible
import AssetRecords.Proofs.EnumTable
/-!
# RoundTrip — debug text and the values it stands for

The text of a legible value is read as that value, whatever is before and behind it (`reads_of_write`).  The induction
is on the reader's room for levels; what a text begins with decides whether an optional is present (`Begins`).
-/
namespace AssetRecords
namespace DebugText

theorem writeFields_eq (fields : List (String × Value)) : writeFields fields = writeAll (fields.map (·.2)) := by
  induction fields with
  | nil => rw [writeFields, List.map_nil, writeAll]
  | cons f rest ih => rw [writeFields, List.map_cons, writeAll, ih]

theorem writeAll_eq_ok_iff : ∀ {vs : List Value} {texts : List (List Char)},
    writeAll vs = .ok texts ↔ List.Forall₂ (fun t v => write v = .ok t) texts vs
  | [], texts => by
    rw [writeAll, List.forall₂_nil_right_iff]
    exact ⟨fun h => by cases h; rfl, fun h => by rw [h]⟩
  | v :: vs, texts => by
    rw [writeAll, Except.bind_eq_ok_iff]
    constructor
    · rintro ⟨t, ht, h⟩
      obtain ⟨ts, hts, ⟨⟩⟩ := Except.bind_eq_ok_iff.1 h
      exact .cons ht (writeAll_eq_ok_iff.1 hts)
    · rintro (_ | ⟨ht, hts⟩)
      exact ⟨_, ht, Except.bind_eq_ok_iff.2 ⟨_, writeAll_eq_ok_iff.2 hts, rfl⟩⟩

/-- The text of a value begins with a token, `null` only if the value looks so, or with a bracket or a quote. -/
inductive Begins (v : Value) (text : List Char) : Prop where
  | token {t rest : List Char} : text = t ++ rest → IsToken t → Stops rest → (t = "null".toList → isNull v = true) →
    Begins v text
  | mark {c : Char} {rest : List Char} : text = c :: rest → isDelimiter c = true → Text.isBlank c = false → c ≠ ']' →
    Begins v text

theorem begins_token {v : Value} {t : List Char} (h : IsToken t) (null : t = "null".toList → isNull v = true) :
    Begins v t :=
  .token (List.append_nil t).symm h stops_nil null

theorem begins_bracketed (v : Value) {first last : Char} (h : isDelimiter first = true)
    (solid : Text.isBlank first = false) (closing : first ≠ ']') (texts : List (List Char)) :
    Begins v (bracketed first last texts) :=
  .mark rfl h solid closing

theorem keyOf?_of_key {table : EnumTable} {variant : Nat} {key : String} (h : table.key variant = .ok key) :
    table.keyOf? variant = some key := by
  unfold EnumTable.key at h
  cases found : table.keyOf? variant with
  | none => rw [found] at h; cases h
  | some k => rw [found] at h; cases h; rfl

theorem begins_of_write : ∀ {v : Value} {text : List Char}, Legible v → write v = .ok text → Begins v text
  | .leaf (.text s), _, _, written => by
    cases written
    exact .mark (Quoted.encode_eq s.toList) (by decide) (by decide) (by decide)
  | .leaf (.bool true), _, _, written => by
    cases written
    exact begins_token (by decide) fun h => absurd h (by decide)
  | .leaf (.bool false), _, _, written => by
    cases written
    exact begins_token (by decide) fun h => absurd h (by decide)
  | .leaf (.number n), _, clear, written => by
    cases written
    refine begins_token (isToken_chars n) fun (null : n.chars = _) => ?_
    have back : n.type.parse n.chars = .ok n.bits := clear.parse_chars (List.mem_singleton_self n)
    rw [null] at back
    cases back
  | .enum table variant, _, clear, written => by
    rw [write, Except.map_eq_ok_iff] at written
    obtain ⟨key, hkey, rfl⟩ := written
    have listed := keyOf?_of_key hkey
    refine begins_token (clear.keys table variant key .self listed).2 fun null => ?_
    obtain rfl := String.toList_inj.1 null
    rw [isNull, listed]
    decide
  | .record _ fields, _, _, written => by
    rw [write, Except.map_eq_ok_iff] at written
    obtain ⟨texts, -, rfl⟩ := written
    exact begins_bracketed _ (by decide) (by decide) (by decide) texts
  | .tuple vs, _, _, written | .sequence _ vs, _, _, written => by
    rw [write, Except.map_eq_ok_iff] at written
    obtain ⟨texts, -, rfl⟩ := written
    exact begins_bracketed _ (by decide) (by decide) (by decide) texts
  | .numbers type ns, _, _, written => by
    cases written
    exact begins_bracketed _ (by decide) (by decide) (by decide) _
  | .buffer b, _, _, written => by
    cases written
    refine .token rfl (isToken_name b.type) (stops_cons (by decide)) fun h => absurd h ?_
    cases b.type <;> decide
  | .absent _, _, _, written => by
    cases written
    exact begins_token (by decide) fun _ => rfl
  | .present content w, _, clear, written => by
    rw [write] at written
    have present := clear.contents content w .self
    cases begins_of_write (clear.part List.mem_cons_self) written with
    | token h ht stops null => exact .token h ht stops fun h => absurd (null h) (by rw [present]; decide)
    | mark h hc solid closing => exact .mark h hc solid closing

theorem Begins.opens {v : Value} {text : List Char} (h : Begins v text) : Opens text := by
  cases h with
  | token h ht =>
    obtain ⟨c, rest, rfl, solid, closing⟩ := opens_of_isToken ht
    exact ⟨c, _, h, solid, closing⟩
  | mark h _ solid closing => exact ⟨_, _, h, solid, closing⟩

/-- Only what looks absent is taken for absent. -/
theorem Begins.nextToken_ne_null {v : Value} {text : List Char} (h : Begins v text) (present : isNull v = false)
    {offset : Nat} {gap after closers : List Char} (blank : gap.all Text.isBlank = true) (stops : Stops after) :
    nextToken ⟨offset, gap ++ (text ++ after), closers⟩ ≠ "null".toList := by
  cases h with
  | @token t rest h ht ends null =>
    have stops : Stops (rest ++ after) := by
      cases rest with
      | nil => exact stops
      | cons c rest => exact stops_cons (ends c rfl)
    -- the lookahead stops where the token does, whatever comes after the value
    rw [h, List.append_assoc, nextToken_append gap blank ht.2 ht.solid stops]
    exact fun h => absurd (null h) (by rw [present]; decide)
  | @mark c rest h ends solid _ =>
    have stops : Stops (c :: (rest ++ after)) := stops_cons ends
    have none : nextToken ⟨offset, gap ++ ([] ++ c :: (rest ++ after)), closers⟩ = [] :=
      nextToken_append gap blank rfl (by rintro _ ⟨⟩; exact solid) stops
    rw [h, List.cons_append]
    exact fun h => absurd (none.symm.trans h) (by decide)

/-- Parts that are read each from its text are read from their texts. -/
theorem readsAll_of_writeAll {S : Schema} {read : Shape → Scan Value} {vs : List Value} {shapes : List Shape}
    (fits : List.Forall₂ S.HasShape vs shapes) {texts : List (List Char)} (written : writeAll vs = .ok texts)
    (hread : ∀ v ∈ vs, ∀ s t, S.HasShape v s → write v = .ok t → Reads (read s) t v) :
    ReadsAll (shapes.map read) texts vs := by
  induction fits generalizing texts with
  | nil =>
    rw [writeAll] at written
    cases written
    exact .nil
  | @cons v s vs shapes fit _ ih =>
    obtain _ | ⟨ht, hts⟩ := writeAll_eq_ok_iff.1 written
    exact .cons (hread v List.mem_cons_self s _ fit ht)
      (ih (writeAll_eq_ok_iff.2 hts) fun v hv => hread v (List.mem_cons_of_mem _ hv))

/-- Parts with keys are read as parts without. -/
theorem readsAll_keyed {read : Shape → Scan Value} {fields : List (String × Value)} {types : List FieldType}
    (keys : fields.map (·.1) = types.map (·.key)) {texts : List (List Char)}
    (h : ReadsAll ((types.map (·.shape)).map read) texts (fields.map (·.2))) :
    ReadsAll (types.map fun f => do return (f.key, ← read f.shape)) texts fields := by
  induction types generalizing fields texts with
  | nil =>
    obtain rfl := List.map_eq_nil_iff.1 keys
    cases h
    exact .nil
  | cons f types ih =>
    cases fields with
    | nil => cases keys
    | cons field fields =>
      obtain ⟨key, v⟩ := field
      obtain ⟨rfl, keys'⟩ := List.cons.inj keys
      cases h with
      | cons first rest => exact .cons (first.pure fun v => (f.key, v)) (ih keys' rest)

/-- **The text of a value is read as the value**, wherever it stands. -/
theorem reads_of_write {S : Schema} {L : Limits} {room : Nat} {shape : Shape} {v : Value} {text : List Char}
    (fits : S.HasShape v shape) (written : write v = .ok text) (deep : v.depth 1 < room)
    (wide : v.CountsWithin L.maxElements) (clear : Legible v) : Reads (readValue S L room shape) text v := by
  induction room generalizing shape v text with
  | zero => omega
  | succ room ih =>
    have parts : ∀ p ∈ v.parts, ∀ s t, S.HasShape p s → write p = .ok t → Reads (readValue S L room s) t p := by
      intro p hp s t hfits ht
      have deeper : p.depth 1 < v.depth 1 := Value.depth_lt_of_mem_parts hp
      exact ih hfits ht (by omega) (wide.part hp) (clear.part hp)
    cases fits with
    | leaf l =>
      cases written
      exact (reads_leaf clear).map Value.leaf
    | enum table variant initial =>
      rw [write, Except.map_eq_ok_iff] at written
      obtain ⟨key, hkey, rfl⟩ := written
      obtain ⟨found, token⟩ := clear.keys table variant key .self (keyOf?_of_key hkey)
      refine (reads_token token).bind fun s => (yields_liftM (a := variant) ?_ s).bind fun _ => yields_pure _ _
      rw [String.ofList_toList, EnumTable.ofKey, found]
    | @record name fields keys shapes =>
      rw [write, Except.map_eq_ok_iff] at written
      obtain ⟨texts, written, rfl⟩ := written
      rw [writeFields_eq] at written
      exact (reads_parts (by decide) (by decide) (by decide)
        (readsAll_keyed keys (readsAll_of_writeAll shapes written parts))).map _
    | tuple shapes =>
      rw [write, Except.map_eq_ok_iff] at written
      obtain ⟨texts, written, rfl⟩ := written
      exact (reads_parts (by decide) (by decide) (by decide) (readsAll_of_writeAll shapes written parts)).map _
    | @vector vs xs shapes =>
      rw [write, Except.map_eq_ok_iff] at written
      obtain ⟨texts, written, rfl⟩ := written
      have all := readsAll_of_writeAll shapes written parts
      rw [List.map_map] at all
      exact (reads_parts (by decide) (by decide) (by decide) all).map _
    | numbers type ns =>
      cases written
      have few : (ns.map fun bits => Scalar.chars ⟨type, bits⟩).length ≤ L.maxElements := by
        rw [List.length_map]
        exact wide.self
      refine Reads.map _ (reads_elements ?_ few)
      rw [List.forall₂_map_left_iff]
      refine List.forall₂_same.2 fun bits hb => ⟨opens_of_isToken (isToken_chars _), fun count few => ?_⟩
      -- a number is a level below its list: there is room for it, since the list is not empty
      have levels : room ≠ 0 := by
        rintro rfl
        rw [Value.depth, if_neg (by rw [List.isEmpty_iff]; exact List.ne_nil_of_mem hb)] at deep
        omega
      refine .check (Limits.checkCount_eq_ok_iff.2 few) ?_
      rw [if_neg levels]
      exact Reads.parse (isToken_chars _) (clear.parse_chars (s := ⟨type, bits⟩) (List.mem_map_of_mem hb))
    | @sequence element vs shapes =>
      rw [write, Except.map_eq_ok_iff] at written
      obtain ⟨texts, written, rfl⟩ := written
      obtain ⟨length, each⟩ := List.forall₂_iff_zip.1 (writeAll_eq_ok_iff.1 written)
      have few : texts.length ≤ L.maxElements := length ▸ wide.self
      refine Reads.map _ (reads_elements ?_ few)
      refine List.forall₂_iff_zip.2 ⟨length, fun {t p} h => ?_⟩
      have hp : p ∈ vs := (List.of_mem_zip h).2
      refine ⟨(begins_of_write (clear.part hp) (each h)).opens, fun count few => ?_⟩
      exact .check (Limits.checkCount_eq_ok_iff.2 few) (parts p hp element t (shapes p hp) (each h))
    | buffer wf =>
      cases written
      exact (reads_buffer wf wide.self clear).map Value.buffer
    | absent content =>
      cases written
      intro offset gap after closers blank stops
      have token : IsToken "null".toList := by decide
      refine (yields_get _).bind fun offset => ?_
      rw [if_pos (nextToken_append gap blank token.2 token.solid stops)]
      exact ((yields_token gap blank token stops).map _).bind fun _ => yields_pure _ _
    | @present content v fit =>
      rw [write] at written
      have begins := begins_of_write (clear.part List.mem_cons_self) written
      intro offset gap after closers blank stops
      refine (yields_get _).bind fun offset => ?_
      rw [if_neg (begins.nextToken_ne_null (clear.contents content v .self) blank stops)]
      exact (parts v List.mem_cons_self content text fit written offset gap after closers blank stops).bind fun _ =>
        yields_pure _ _

/-- **Debug text reads back what it writes**, within the limits and as far as the value is legible. -/
theorem read_render {S : Schema} {L : Limits} {shape : Shape} {v : Value} {t : String} (fits : S.HasShape v shape)
    (written : render v = .ok t) (deep : v.depth 1 ≤ L.maxDepth) (wide : v.CountsWithin L.maxElements)
    (clear : Legible v) : read S L shape t = .ok v := by
  rw [render, Except.map_eq_ok_iff] at written
  obtain ⟨text, written, rfl⟩ := written
  have back := reads_of_write fits written (by omega : v.depth 1 < L.maxDepth + 1) wide clear
  obtain ⟨offset, back⟩ := back 0 [] [] [] rfl stops_nil
  rw [List.nil_append, List.append_nil] at back
  rw [read, Scanner.start, String.toList_ofList, back]
  rfl

theorem read_render_specimen : ∃ t, render (.specimen 0x3fc00000#32) = .ok t ∧
    read .nodes {} (.record "Node") t = .ok (.specimen 0x3fc00000#32) :=
  ⟨_, rfl, read_render (Schema.hasShape_specimen _) rfl (by decide) (by decide +kernel)
    (legible_of_all (by decide +kernel))⟩

end DebugText
end AssetRecords
