import AssetRecords.Packed.Writer
import AssetRecords.Proofs.DebugText.Optionals
import AssetRecords.Proofs.Json.RoundTrip
/-!
# Optionals — what texts keep of optionals and keys

Debug text writes a key without quotes, and debug text and JSON both write a present optional as what it holds.  What
the two do not tell apart is exactly what collapses to the same value (`texts_collapse_optionals`).
-/
namespace AssetRecords

/-- **What texts keep of optionals and keys.**  A listed enum value behind optionals is read from its debug text exactly
if its key is one token, and not the word for what is absent where an optional is around.  Any other value is read from
its debug text, and from its JSON by whatever parser conforms, as its collapse: as itself exactly if nothing that is
present in it looks absent. -/
theorem texts_collapse_optionals (S : Schema) (L : Limits) :
    (∀ (table : EnumTable) (variant initial : Nat) (key : String) (layers : Nat), (table.rows.map (·.1)).Nodup →
      (table.rows.map (·.2)).Nodup → (variant, key) ∈ table.rows → layers ≤ L.maxDepth →
        DebugText.render ((Value.enum table variant).behind (.enum table initial) layers) = .ok key ∧
        (DebugText.read S L ((Shape.enum table initial).behind layers) key =
            .ok ((Value.enum table variant).behind (.enum table initial) layers) ↔
          DebugText.IsToken key.toList ∧ (key = "null" → layers = 0))) ∧
    (∀ shape v t, S.HasShape v shape → DebugText.render v = .ok t → DebugText.Spelled v → v.depth 1 ≤ L.maxDepth →
      v.CountsWithin L.maxElements →
        DebugText.read S L shape t = .ok (v.collapse DebugText.isNull) ∧
        (DebugText.read S L shape t = .ok v ↔
          ∀ content w, (Value.present content w).Occurs v → DebugText.isNull w = false)) ∧
    (∀ parse number, Json.Conforms parse number → ∀ shape layout v t, S.Plain shape → S.HasShape v shape →
      layout.Spaced → Json.render layout v = .ok t → Json.Spelled number v → Json.nesting v ≤ Json.maxNesting →
      Json.descent v ≤ L.maxDepth → v.CountsWithin L.maxElements →
        Json.readWith parse S L shape t = .ok (v.collapse Json.isAbsent) ∧
        (Json.readWith parse S L shape t = .ok v ↔
          ∀ content w, (Value.present content w).Occurs v → Json.isAbsent w = false)) := by
  refine ⟨fun table variant initial key layers variants keys row room => ?_,
    fun shape v t fits written spelled deep wide => ?_,
    fun parse number conforms shape layout v t plain fits spaced written spelled low deep wide => ?_⟩
  · exact ⟨DebugText.render_behind (EnumTable.keyOf?_of_mem variants row) _ layers,
      DebugText.read_behind_eq_ok_iff variants keys row room⟩
  · have back := DebugText.read_collapse (L := L) fits written spelled deep wide
    refine ⟨back, ?_⟩
    rw [back, Except.ok.injEq]
    exact Value.collapse_eq_self_iff
  · have back := Json.readWith_collapse (L := L) conforms plain fits spaced written spelled low deep wide
    refine ⟨back, ?_⟩
    rw [back, Except.ok.injEq]
    exact Value.collapse_eq_self_iff

/-!
A record type with an optional within an optional, and a value of it that holds nothing two layers deep.
-/

def blinds : Schema := Schema.declare {} "Blind" [("tilt", .optional (.optional (.leaf (.number .uint8))))]

def blind (tilt : Value) : Value := .record "Blind" [("tilt", tilt)]

def untold : Value := .present (.optional (.leaf (.number .uint8))) (.absent (.leaf (.number .uint8)))

theorem plain_blinds : blinds.Plain (.record "Blind") := by
  have fits : ∀ r ∈ blinds.records, ∀ f ∈ r.fields, blinds.HasShape f.initial f.shape :=
    List.forall_mem_singleton.2 (List.forall_mem_singleton.2 (.absent _))
  have rest : ∀ r ∈ blinds.records, (r.fields.map (·.key)).Nodup ∧
      ∀ f ∈ r.fields, f.shape.bufferless = true ∧ f.initial.Fresh := by decide +kernel
  exact Schema.plain_of_records (fun r hr => ⟨(rest r hr).1, fun f hf =>
    ⟨((rest r hr).2 f hf).1, fits r hr f hf, ((rest r hr).2 f hf).2⟩⟩) rfl

/-- There are neither keys nor numbers in the value. -/
theorem wordless_untold (w : Value) (occurs : w.Occurs (blind untold)) :
    w.scalars = [] ∧ ∀ table variant, w ≠ .enum table variant := by
  have bare : (blind untold).all (fun w => w.scalars.isEmpty && w.shape.tables.isEmpty) = true := by decide
  have here := Value.all_eq_true_iff.1 bare w occurs
  rw [Bool.and_eq_true, List.isEmpty_iff] at here
  refine ⟨here.1, ?_⟩
  rintro table variant rfl
  cases here.2

theorem texts_collapse_optionals_blind :
    DebugText.read blinds {} ((Shape.enum .kinds 0).behind 2) "moving" =
        .ok ((Value.enum .kinds 1).behind (.enum .kinds 0) 2) ∧
      DebugText.read blinds {} (.record "Blind") "\x7bnull\x7d" =
        .ok (blind (.absent (.optional (.leaf (.number .uint8))))) ∧
      Json.read blinds {} (.record "Blind") "\x7b\n\t\"tilt\" : null\n\x7d" =
        .ok (blind (.absent (.optional (.leaf (.number .uint8))))) := by
  obtain ⟨keys, debug, json⟩ := texts_collapse_optionals blinds {}
  have fits : blinds.HasShape (blind untold) (.record "Blind") := .record rfl (.cons (.present (.absent _)) .nil)
  have moving := (keys .kinds 1 0 "moving" 2 (by decide) (by decide) (by decide) (by decide)).2.2 (by decide)
  have brief := (debug _ (blind untold) "\x7bnull\x7d" fits rfl
    ⟨fun table variant _ occurs => absurd rfl ((wordless_untold _ occurs).2 table variant),
      fun w s occurs hs => absurd hs (by rw [(wordless_untold w occurs).1]; nofun)⟩ (by decide) (by decide +kernel)).1
  have written : Json.render {} (blind untold) = .ok "\x7b\n\t\"tilt\" : null\n\x7d" :=
    Except.toOption_eq_some_iff.1 (by decide +kernel)
  have long := (json _ _ Json.conforms_parse? _ {} (blind untold) _ plain_blinds fits (by decide) written
    ⟨fun table variant _ occurs => absurd rfl ((wordless_untold _ occurs).2 table variant),
      fun w s occurs hs => absurd hs (by rw [(wordless_untold w occurs).1]; nofun)⟩ (by decide) (by decide)
    (by decide +kernel)).1
  exact ⟨moving, brief, long⟩

/-- An optional that holds an absent one is not told from an absent one, as its bytes tell it, and keys are not kept
apart from the words and marks of a text. -/
theorem nested_absence_lost :
    Packed.write (blind untold) = .ok [1, 0] ∧
      (DebugText.render (blind untold) >>= DebugText.read blinds {} (.record "Blind") >>= Packed.write) = .ok [0] ∧
      (Json.render {} (blind untold) >>= Json.read blinds {} (.record "Blind") >>= Packed.write) = .ok [0] ∧
      DebugText.read {} {} ((Shape.enum ⟨"Answer", [(0, "null")]⟩ 0).behind 1) "null" =
        .ok (.absent (.enum ⟨"Answer", [(0, "null")]⟩ 0)) ∧
      (DebugText.read {} {} (.enum ⟨"State", [(0, "half open")]⟩ 0) "half open").isOk = false :=
  ⟨rfl, Except.toOption_eq_some_iff.1 (by decide +kernel), Except.toOption_eq_some_iff.1 (by decide +kernel), rfl, rfl⟩

end AssetRecords
