import AssetRecords.Proofs.Armature.Forest
import AssetRecords.Proofs.Asset.Consumption
import AssetRecords.Proofs.Packed.Consumption
/-!
# Truncation — a file that is cut off shows

A decoder of assets answers by the first bytes of a file alone; the packed format admits no others.  In both, a file that
ends too early is told to end too early and nothing else, wherever it is cut (`truncation_shows`).
-/
namespace AssetRecords

/-- The first bytes of a file decide: with anything behind them they are decoded to the same, and each proper front of
them is told to be too short, by a failure that names the file. -/
structure Asset.DecidedBy {α : Type} (decode : Content → Except Error α) (front : Bytes) (a : α) : Prop where
  whole : ∀ content : Content, front <+: content.data → decode content = .ok a
  short : ∀ content : Content, content.data <+: front → content.data.length < front.length →
    ∃ e, decode content = .error (.inContent content.path e) ∧ e.EndsAt content.data.length

theorem Error.EndsAt.named {size : Nat} {e : Error} (h : e.EndsAt size) (path : String) :
    e.named path = .inContent path e := by
  obtain ⟨offset, requested, rfl, -⟩ := h
  rfl

namespace Asset

variable {α : Type} {read : Bytes → Reading α} {content : Content} {a : α}

/-- The bytes that were taken decide. -/
theorem decidedBy_of_consumes (h : Reading.Consumes 0 read) (decoded : readContent read content = .ok a) :
    ∃ c, read content.data {} = (.ok a, c) ∧ c.pos ≤ content.data.length ∧
      DecidedBy (readContent read) (content.data.take c.pos) a := by
  obtain ⟨c, run⟩ := readContent_eq_ok_iff.1 decoded
  have consumed := h.consumed (Nat.zero_le _) run
  have length : (content.data.take c.pos).length = c.pos := List.length_take_of_le consumed.inside
  refine ⟨c, run, consumed.inside, fun other front => readContent_eq_ok_iff.2 ⟨c, consumed.alike front⟩,
    fun other front shorter => ?_⟩
  rw [length] at shorter
  obtain ⟨e, stop, fails, ends⟩ := consumed.short (Nat.zero_le other.data.length) shorter
  have cut : content.data.take other.data.length = other.data := by
    have same := List.prefix_iff_eq_take.1 front
    rwa [List.take_take, Nat.min_eq_left (Nat.le_of_lt shorter), eq_comm] at same
  rw [cut] at fails
  refine ⟨e, ?_, ends⟩
  rw [readContent, fails]
  exact congrArg Except.error (ends.named other.path)

end Asset

/-- **Truncation always shows, and extension never confuses.**  An armature, a level or a placeholder is decided by the
bytes of its file that were read: with anything behind them the file holds the same, and cut off anywhere before their
end it is told to be too short.  Packed bytes are a value only as a whole: each proper front of them is told to be too
short, and whatever is put behind them is told to be too much. -/
theorem truncation_shows (S : Schema) (L : Limits) :
    (∀ content a, Armature.read L content = .ok a → ∃ c, Armature.readData L content.data {} = (.ok a, c) ∧
      c.pos ≤ content.data.length ∧ Asset.DecidedBy (Armature.read L) (content.data.take c.pos) a) ∧
    (∀ content l, Level.read L content = .ok l → ∃ c, Level.readData L content.data {} = (.ok l, c) ∧
      c.pos ≤ content.data.length ∧ Asset.DecidedBy (Level.read L) (content.data.take c.pos) l) ∧
    (∀ content p, Placeholder.read L content = .ok p → ∃ c, Placeholder.readData L content.data {} = (.ok p, c) ∧
      c.pos ≤ content.data.length ∧ Asset.DecidedBy (Placeholder.read L) (content.data.take c.pos) p) ∧
    (∀ shape b v, Packed.read S L shape b = .ok v →
      (∀ k < b.length, ∃ e, Packed.read S L shape (b.take k) = .error e ∧ e.EndsAt k) ∧
      ∀ rest ≠ [], Packed.read S L shape (b ++ rest) = .error (.malformed (.trailingBytes rest.length b.length))) := by
  refine ⟨fun content a h => ?_, fun content l h => ?_, fun content p h => ?_, fun shape b v h => ⟨?_, ?_⟩⟩
  · exact Asset.decidedBy_of_consumes (Armature.consumes_data L) h
  · exact Asset.decidedBy_of_consumes (Level.consumes_data L) h
  · exact Asset.decidedBy_of_consumes (Placeholder.consumes_data L) h
  · exact fun k hk => Packed.read_take h hk
  · exact fun rest more => Packed.read_append h more

/-- A level without meshes, and a byte behind it. -/
def Level.barren : Content := ⟨"barren.level", [1, 0, 0x62, 0, 0, 7]⟩

/-- A placeholder without vertices and triangles. -/
def Placeholder.hollow : Content := ⟨"hollow.placeholder", List.replicate 74 0⟩

theorem truncation_shows_specimens :
    (∃ a c, Armature.readData {} Armature.specimenFile.data {} = (.ok a, c) ∧
      Asset.DecidedBy (Armature.read {}) (Armature.specimenFile.data.take c.pos) a) ∧
    (∃ l c, Level.readData {} Level.barren.data {} = (.ok l, c) ∧
      Asset.DecidedBy (Level.read {}) (Level.barren.data.take c.pos) l) ∧
    (∃ p c, Placeholder.readData {} Placeholder.hollow.data {} = (.ok p, c) ∧
      Asset.DecidedBy (Placeholder.read {}) (Placeholder.hollow.data.take c.pos) p) ∧
    (∃ e, Packed.read {} {} (.sequence (.leaf .text)) [1, 0, 0, 0, 1, 0] = .error e ∧ e.EndsAt 6) ∧
    Packed.read {} {} (.sequence (.leaf .text)) [1, 0, 0, 0, 1, 0, 0x61, 9] = .error (.malformed (.trailingBytes 1 7)) := by
  have decoded : ∀ {α : Type} {e : Except Error α}, e.isOk = true → ∃ a, e = .ok a := by
    rintro α (e | a) h
    · cases h
    · exact ⟨a, rfl⟩
  obtain ⟨armatures, levels, placeholders, packed⟩ := truncation_shows {} {}
  obtain ⟨a, ha⟩ := decoded (show (Armature.read {} Armature.specimenFile).isOk = true by decide +kernel)
  obtain ⟨l, hl⟩ := decoded (show (Level.read {} Level.barren).isOk = true by decide +kernel)
  obtain ⟨p, hp⟩ := decoded (show (Placeholder.read {} Placeholder.hollow).isOk = true by decide +kernel)
  obtain ⟨v, hv⟩ := decoded
    (show (Packed.read {} {} (.sequence (.leaf .text)) [1, 0, 0, 0, 1, 0, 0x61]).isOk = true by decide +kernel)
  obtain ⟨c, run, -, decided⟩ := armatures _ _ ha
  obtain ⟨c', run', -, decided'⟩ := levels _ _ hl
  obtain ⟨c'', run'', -, decided''⟩ := placeholders _ _ hp
  obtain ⟨short, long⟩ := packed _ _ _ hv
  exact ⟨⟨a, c, run, decided⟩, ⟨l, c', run', decided'⟩, ⟨p, c'', run'', decided''⟩, short 6 (by decide),
    long [9] (by decide)⟩

end AssetRecords
