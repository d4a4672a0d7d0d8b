import AssetRecords.Limits
import AssetRecords.Proofs.Outcome
import AssetRecords.Schema.EnumTable
import AssetRecords.Schema.Leaf
/-!
# Silence — failures that blame no place in a text

What does not look at a text as a whole cannot say where in it something is wrong: a token that spells no value, a number
that a type does not hold, a key that a table lacks, a count past its limit and a buffer that cannot be had.
-/
namespace AssetRecords

/-- The failure is no fault of syntax. -/
def Error.Silent (e : Error) : Prop := ∀ offset fault, e ≠ .syntaxFault offset fault

variable {e : Error}

theorem silent_narrow {type : ScalarType} {n : Number} (h : type.narrow n = .error e) : e.Silent := by
  unfold ScalarType.narrow at h
  split at h
  · cases h
  · cases h
    exact nofun

theorem silent_parse_number {type : ScalarType} {token : List Char} (h : type.parse token = .error e) : e.Silent := by
  unfold ScalarType.parse at h
  split at h
  · exact silent_narrow h
  · cases h
    exact nofun

theorem silent_parse {type : LeafType} {token : List Char} (h : type.parse token = .error e) : e.Silent := by
  cases type with
  | bool =>
    simp only [LeafType.parse] at h
    split at h
    · cases h
    · split at h
      · cases h
      · cases h
        exact nofun
  | number type => exact silent_parse_number (Except.map_eq_error_iff.1 h)
  | text => cases h

theorem silent_ofKey {table : EnumTable} {key : String} (h : table.ofKey key = .error e) : e.Silent := by
  unfold EnumTable.ofKey at h
  split at h
  · cases h
  · cases h
    exact nofun

theorem silent_checkCount {L : Limits} {count : Nat} (h : L.checkCount count = .error e) : e.Silent := by
  unfold Limits.checkCount at h
  split at h
  · cases h
    exact nofun
  · cases h

theorem silent_zeroed {type : ScalarType} {length : Nat} (h : Buffer.zeroed type length = .error e) : e.Silent := by
  simp only [Buffer.zeroed] at h
  split at h
  · cases h
    exact nofun
  split at h
  · cases h
    exact nofun
  split at h
  · cases h
    exact nofun
  · cases h

end AssetRecords
