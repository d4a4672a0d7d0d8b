import AssetRecords.Json.Writer
/-!
# Writer — what has no JSON

A value is refused for one of two reasons (`sound_write`), and neither has to do with where its text is to go.
-/
namespace AssetRecords
namespace Json

/-- Why a value has no JSON: its table does not list a variant, or a number is not finite. -/
inductive HasNoJson : Error → Prop where
  | unlisted (table : EnumTable) : HasNoJson table.unlisted
  | notFinite (x : Double) : HasNoJson (.inexpressible (.notFinite x))

namespace Emission

/-- If an emission is refused, then for one of the two reasons that there are. -/
def Sound (m : Emission) : Prop := ∀ e, m.refusal = some e → HasNoJson e

theorem sound_pieces (ps : List (List Char)) : Sound ⟨ps, none⟩ := nofun

theorem Sound.append {a b : Emission} (ha : a.Sound) (hb : b.Sound) : (a ++ b).Sound := by
  intro e h
  obtain ⟨ps, refusal⟩ := a
  cases refusal with
  | some e' => exact ha e h
  | none => exact hb e h

end Emission

open Emission (sound_pieces)

theorem sound_newline (layout : Layout) (depth : Nat) : (layout.newline depth).Sound := by
  unfold Layout.newline
  split
  · exact sound_pieces _
  · exact sound_pieces _

theorem sound_writeNumber (n : Scalar) : (writeNumber n).Sound := by
  unfold writeNumber
  split
  · exact sound_pieces _
  · split
    · rintro _ ⟨⟩
      exact .notFinite _
    · exact sound_pieces _

theorem sound_writeNumbersAfter (layout : Layout) : ∀ ns, (writeNumbersAfter layout ns).Sound
  | [] => sound_pieces _
  | n :: rest => ((sound_pieces _).append (sound_writeNumber n)).append (sound_writeNumbersAfter layout rest)

theorem sound_writeNumbers (layout : Layout) : ∀ ns, (writeNumbers layout ns).Sound
  | [] => ((sound_pieces _).append (sound_pieces _)).append (sound_pieces _)
  | n :: rest => ((sound_pieces _).append ((sound_writeNumber n).append (sound_writeNumbersAfter layout rest))).append
    (sound_pieces _)

theorem sound_comma (first : Bool) {comma : Emission} (h : comma.Sound) : (if first then {} else comma).Sound := by
  split
  · exact sound_pieces _
  · exact h

mutual

theorem sound_write (layout : Layout) (depth : Nat) : ∀ v, (write layout depth v).Sound
  | .leaf (.number n) => by rw [write]; exact sound_writeNumber n
  | .leaf (.text _) | .leaf (.bool _) => by rw [write]; exact sound_pieces _
  | .enum table variant => by
    rw [write, EnumTable.key]
    cases table.keyOf? variant with
    | some key => exact sound_pieces _
    | none =>
      rintro _ ⟨⟩
      exact .unlisted table
  | .record _ fields => by
    rw [write]
    split
    · exact sound_pieces _
    · exact (((sound_pieces _).append (sound_writeFields layout depth true fields)).append
        (sound_newline layout depth)).append (sound_pieces _)
  | .tuple vs => by
    rw [write]
    exact ((sound_pieces _).append (sound_writeElements layout depth true vs)).append (sound_pieces _)
  | .numbers _ _ => by rw [write]; exact sound_writeNumbers layout _
  | .sequence _ vs => by
    rw [write]
    exact ((sound_pieces _).append (sound_writeElements layout depth true vs)).append (sound_pieces _)
  | .buffer _ => by rw [write]; exact sound_writeNumbers layout _
  | .absent _ => by rw [write]; exact sound_pieces _
  | .present _ v => by rw [write]; exact sound_write layout depth v

theorem sound_writeFields (layout : Layout) (depth : Nat) (first : Bool) :
    ∀ fields, (writeFields layout depth first fields).Sound
  | [] => by rw [writeFields]; exact sound_pieces _
  | (_, v) :: rest => by
    rw [writeFields]
    split
    · exact sound_writeFields layout depth first rest
    · refine Emission.Sound.append ?_ (sound_writeFields layout depth false rest)
      refine Emission.Sound.append ?_ (sound_write layout (depth + 1) v)
      exact (((sound_comma first (sound_pieces _)).append (sound_newline layout (depth + 1))).append
        (sound_pieces _)).append (sound_pieces _)

theorem sound_writeElements (layout : Layout) (depth : Nat) (first : Bool) :
    ∀ vs, (writeElements layout depth first vs).Sound
  | [] => by rw [writeElements]; exact sound_pieces _
  | v :: rest => by
    rw [writeElements]
    exact ((sound_comma first (sound_pieces _)).append (sound_write layout depth v)).append
      (sound_writeElements layout depth false rest)

end

end Json
end AssetRecords
