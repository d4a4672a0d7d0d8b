import AssetRecords.Buffer.Operation
import AssetRecords.Schema.Value
/-!
# Walking through values and changing them

A path leads from a value to one of its parts.  A change to the part is a change to the value.
-/
namespace AssetRecords

inductive Step where
  | key (name : String)
  | index (i : Nat)
  deriving DecidableEq, Repr

/-- Why a path leads nowhere: there is no such part, or the index is past the last one. -/
inductive Misstep where
  | noPart
  | outOfRange
  deriving DecidableEq, Repr

namespace Value

/-- A part that there is at an index, or that the index is past the last one. -/
def inRange {α : Type} : Option α → Except Misstep α
  | some a => .ok a
  | none => .error .outOfRange

/-- The part that a step leads to.  Any step leads from a present optional to what it holds. -/
def child : Value → Step → Except Misstep Value
  | record _ fields, .key name => if let some v := Fields.find? name fields then .ok v else .error .noPart
  | record _ fields, .index i => inRange (fields[i]?.map (·.2))
  | tuple vs, .index i | sequence _ vs, .index i => inRange vs[i]?
  | numbers type ns, .index i => inRange (ns[i]?.map fun bits => leaf (.number ⟨type, bits⟩))
  | present _ v, _ => .ok v
  | _, _ => .error .noPart

/-- A value with another part in the place that a step leads to. -/
def withChild (v : Value) (s : Step) (part : Value) : Value :=
  match v, s with
  | record name fields, .key key =>
    record name (fields.modify (fields.findIdx (·.1 == key)) fun f => (f.1, part))
  | record name fields, .index i => record name (fields.modify i fun f => (f.1, part))
  | tuple vs, .index i => tuple (vs.set i part)
  | sequence element vs, .index i => sequence element (vs.set i part)
  | numbers type ns, .index i =>
    match part with
    | leaf (.number n) => numbers type (((n.bitsIn? type).map (ns.set i)).getD ns)
    | _ => v
  | present content _, _ => present content part
  | _, _ => v

/-- What a change to the part at the end of a path answers, and the value after it. -/
def modifyAt {α : Type} (change : Value → α × Value) : List Step → Value → Except Misstep (α × Value)
  | [], v => .ok (change v)
  | s :: rest, v => do
    let (answer, part) ← modifyAt change rest (← v.child s)
    return (answer, v.withChild s part)

def resized {α : Type} (count : Nat) (initial : α) (elements : List α) : List α :=
  elements.take count ++ List.replicate (count - elements.length) initial

def resize? (S : Schema) (count : Nat) : Value → Option Value
  | numbers type ns => some (numbers type (resized count 0 ns))
  | sequence element vs => some (sequence element (resized count (S.initial element) vs))
  | _ => none

def store? (index : Nat) (n : Number) : Value → Option (Buffer.Outcome × Value)
  | buffer b => let (outcome, b) := b.perform (.store index n); some (outcome, buffer b)
  | numbers type ns =>
    some <|
      match type.narrow n with
      | .error e => (.refused e, numbers type ns)
      | .ok element =>
        if index < ns.length then (.done, numbers type (ns.set index element)) else (.outOfRange, numbers type ns)
  | _ => none

/-- An optional with a value of its own to start with. -/
def fill? (S : Schema) : Value → Option Value
  | absent content | present content _ => some (present content (S.initial content))
  | _ => none

def clear? : Value → Option Value
  | absent content | present content _ => some (absent content)
  | _ => none

end Value

namespace RecordType

def keys (r : RecordType) : List String := r.fields.map (·.key)

def find? (r : RecordType) (key : String) : Option Nat := r.fields.findIdx? (·.key == key)

def field (r : RecordType) (key : String) : Except Error FieldType :=
  match r.fields.find? (·.key == key) with
  | some f => .ok f
  | none => .error (.unknownField r.name key)

def shown (r : RecordType) : String :=
  let keys := ", ".intercalate (r.keys.map Text.inQuotes)
  "SchemaTable \x7b type_name: " ++ Text.inQuotes r.name ++ ", keys: [" ++ keys ++ "] \x7d"

end RecordType

namespace Fields

/-- Visits fields in order up to the first one that the visitor refuses.  The visitor carries a state along, and each
field it has answered for keeps the answer. -/
def visit {σ : Type} (visitor : σ → String → Value → Except Error (σ × Value)) :
    σ → List (String × Value) → σ × List (String × Value) × Option Error
  | s, [] => (s, [], none)
  | s, (key, v) :: rest =>
    match visitor s key v with
    | .error e => (s, (key, v) :: rest, some e)
    | .ok (s, v) =>
      let (s, rest, error) := visit visitor s rest
      (s, (key, v) :: rest, error)

end Fields
end AssetRecords
