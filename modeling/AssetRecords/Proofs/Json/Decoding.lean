import AssetRecords.Json.Decoder
import AssetRecords.Proofs.Outcome
/-!
# Decoding — everything that decoding a tree can do

A tree is decoded into a value in one of nine ways (`Decodes`), by the kind of the value, and in no other
(`decodeInto_eq_ok_iff`).
-/
namespace AssetRecords

/-- The shape of what may be put into an optional. -/
def Value.content? : Value → Option Shape
  | .absent content | .present content _ => some content
  | _ => none

namespace Json

/-- What becomes of a value that a tree is decoded into, when arrays may have `most` elements and `decode` decodes its
parts. -/
inductive Decodes (S : Schema) (most : Nat) (decode : Value → Json → Except Error Value) : Value → Json → Value → Prop
    where
  | clear {v : Value} {content : Shape} : v.content? = some content → Decodes S most decode v .null (.absent content)
  | fill {v w : Value} {content : Shape} {j : Json} : v.content? = some content → j ≠ .null →
    decode (S.initial content) j = .ok w → Decodes S most decode v j (.present content w)
  | tuple {vs ws : List Value} {js : List Json} : vs.length = js.length →
    (vs.zip js).mapM (fun p => decode p.1 p.2) = .ok ws → Decodes S most decode (.tuple vs) (.array js) (.tuple ws)
  | numbers {type : ScalarType} {ms ns : List type.Bits} {js : List Json} : js.length ≤ most →
    bulkCopy type js = .ok ns → Decodes S most decode (.numbers type ms) (.array js) (.numbers type ns)
  | buffer {a b : Buffer} {js : List Json} : js.length ≤ most → toBuffer js = .ok b →
    Decodes S most decode (.buffer a) (.array js) (.buffer b)
  | sequence {element : Shape} {vs ws : List Value} {js : List Json} : js.length ≤ most →
    (targets (S.initial element) vs js).mapM (fun p => decode p.1 p.2) = .ok ws →
    Decodes S most decode (.sequence element vs) (.array js) (.sequence element ws)
  | enum {table : EnumTable} {old new : Nat} {key : String} : table.ofKey key = .ok new →
    Decodes S most decode (.enum table old) (.text key) (.enum table new)
  | record {name : String} {start final : List (String × Value)} {members : List (String × Json)} :
    members.foldlM (fun fields m => Fields.update m.1 (fun v => decode v m.2) fields) start = .ok final →
    Decodes S most decode (.record name start) (.object members) (.record name final)
  | leaf {old new : Leaf} {j : Json} : assignLeaf old j = .ok new → Decodes S most decode (.leaf old) j (.leaf new)

theorem targets_nil_right (initial : Value) (vs : List Value) : targets initial vs [] = [] := by
  rw [targets]

theorem targets_cons (initial : Value) (vs : List Value) (j : Json) (js : List Json) :
    targets initial vs (j :: js) = (vs.head?.getD initial, j) :: targets initial vs.tail js := by
  cases vs <;> rw [targets] <;> rfl

variable {S : Schema} {L : Limits} {room : Nat} {v w : Value} {j : Json}

theorem decodeInto_eq_ok_iff :
    decodeInto S L (room + 1) v j = .ok w ↔ Decodes S L.maxElements (decodeInto S L room) v j w := by
  constructor
  · intro h
    unfold decodeInto at h
    split at h
    case h_1 => cases h; exact .clear rfl
    case h_2 => cases h; exact .clear rfl
    case h_3 null =>
      obtain ⟨x, hx, rfl⟩ := Except.map_eq_ok_iff.1 h
      exact .fill rfl null hx
    case h_4 null =>
      obtain ⟨x, hx, rfl⟩ := Except.map_eq_ok_iff.1 h
      exact .fill rfl null hx
    case h_5 =>
      split at h
      case isTrue same =>
        obtain ⟨ws, hws, rfl⟩ := Except.map_eq_ok_iff.1 h
        exact .tuple same hws
      case isFalse => cases h
    case h_6 js notAbsent notPresent notTuple =>
      obtain ⟨u, admitted, h⟩ := Except.bind_eq_ok_iff.1 h
      have few := Limits.checkCount_eq_ok_iff.1 admitted
      cases v with
      | numbers type ms =>
        obtain ⟨ns, hns, ⟨⟩⟩ := Except.bind_eq_ok_iff.1 h
        exact .numbers few hns
      | buffer a =>
        obtain ⟨b, hb, ⟨⟩⟩ := Except.bind_eq_ok_iff.1 h
        exact .buffer few hb
      | sequence element vs =>
        obtain ⟨ws, hws, rfl⟩ := Except.map_eq_ok_iff.1 h
        exact .sequence few hws
      | tuple vs => exact absurd rfl (notTuple vs)
      | absent content => exact absurd rfl (notAbsent content)
      | present content x => exact absurd rfl (notPresent content x)
      | _ => cases h
    case h_7 =>
      obtain ⟨new, hnew, rfl⟩ := Except.map_eq_ok_iff.1 h
      exact .enum hnew
    case h_8 =>
      obtain ⟨final, hfinal, rfl⟩ := Except.map_eq_ok_iff.1 h
      exact .record hfinal
    case h_9 =>
      obtain ⟨new, hnew, rfl⟩ := Except.map_eq_ok_iff.1 h
      exact .leaf hnew
    case h_10 => cases h
  · intro h
    cases h with
    | @clear v content optional =>
      cases v <;> cases optional <;> rfl
    | @fill v w content j optional null hw =>
      cases v <;> cases optional <;> cases j <;> first | exact absurd rfl null | exact Except.map_eq_ok_iff.2 ⟨w, hw, rfl⟩
    | tuple same hws =>
      rw [decodeInto, if_pos same]
      exact Except.map_eq_ok_iff.2 ⟨_, hws, rfl⟩
    | numbers few hns =>
      have admitted := Limits.checkCount_eq_ok_iff.2 few
      exact Except.bind_eq_ok_iff.2 ⟨(), admitted, Except.bind_eq_ok_iff.2 ⟨_, hns, rfl⟩⟩
    | buffer few hb =>
      have admitted := Limits.checkCount_eq_ok_iff.2 few
      exact Except.bind_eq_ok_iff.2 ⟨(), admitted, Except.bind_eq_ok_iff.2 ⟨_, hb, rfl⟩⟩
    | sequence few hws =>
      have admitted := Limits.checkCount_eq_ok_iff.2 few
      exact Except.bind_eq_ok_iff.2 ⟨(), admitted, Except.map_eq_ok_iff.2 ⟨_, hws, rfl⟩⟩
    | enum hnew => exact Except.map_eq_ok_iff.2 ⟨_, hnew, rfl⟩
    | record hfinal => exact Except.map_eq_ok_iff.2 ⟨_, hfinal, rfl⟩
    | @leaf old new j hnew =>
      cases j <;> first | exact Except.map_eq_ok_iff.2 ⟨new, hnew, rfl⟩ | cases hnew

end Json
end AssetRecords
