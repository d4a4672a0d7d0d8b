import AssetRecords.Cursor
import AssetRecords.Json.Narrowing
import AssetRecords.Json.Reader
import AssetRecords.Schema.Value
/-!
# From trees to values

A tree is decoded into a value that is there already: what the tree does not mention stays.  Members are visited in the
order of their keys, and those that the record does not know are passed over.
-/
namespace AssetRecords
namespace Json

/-- How an array gets into a value that can take arrays of any length. -/
inductive ArrayStrategy where
  /-- The numbers go straight into one block. -/
  | bulkCopy
  /-- One element type is chosen for all numbers, and a buffer is shaped for it. -/
  | reshape
  /-- Each element is decoded on its own. -/
  | iterate
  deriving DecidableEq, Repr

namespace ArrayStrategy

def ranked : List ArrayStrategy := [bulkCopy, reshape, iterate]

def applies : ArrayStrategy → Value → Bool
  | bulkCopy, .numbers _ _ => true
  | reshape, .buffer _ => true
  | iterate, .numbers _ _ | iterate, .sequence _ _ => true
  | _, _ => false

def select? (v : Value) : Option ArrayStrategy := ranked.find? (·.applies v)

end ArrayStrategy

def assignLeaf (l : Leaf) : Json → Except Error Leaf
  | bool b => l.setBool b
  | number n => l.setNumber n
  | text s => l.setText s
  | j => .error (.typeMismatch l.kind j.kind)

def bulkCopy (type : ScalarType) (elements : List Json) : Except Error (List type.Bits) :=
  elements.mapM fun j => do type.narrow (← j.toNumber)

/-- A buffer of the narrowest type for an array of numbers. -/
def toBuffer (elements : List Json) : Except Error Buffer := do
  let type ← elementType elements
  let numbers ← elements.mapM toNumber
  Buffer.ofNumbers type numbers

/-- The values that elements are decoded into: those that are there, and then as many new ones as are missing. -/
def targets (initial : Value) : List Value → List Json → List (Value × Json)
  | _, [] => []
  | [], j :: rest => (initial, j) :: targets initial [] rest
  | v :: vs, j :: rest => (v, j) :: targets initial vs rest

/-- A value with a tree decoded into it, with room for so many levels of parts. -/
def decodeInto (S : Schema) (L : Limits) : (room : Nat) → Value → Json → Except Error Value
  | 0, _, _ => .error (.depthLimit L.maxDepth)
  | room + 1, v, j =>
    match v, j with
    | .absent content, .null | .present content _, .null => .ok (.absent content)
    | .absent content, j | .present content _, j =>
      .present content <$> decodeInto S L room (S.initial content) j
    | .tuple vs, .array js =>
      if vs.length = js.length then .tuple <$> (vs.zip js).mapM fun p => decodeInto S L room p.1 p.2
      else .error (.extentMismatch vs.length js.length)
    | v, .array js => do
      L.checkCount js.length
      match ArrayStrategy.select? v, v with
      | some .bulkCopy, .numbers type _ => return .numbers type (← bulkCopy type js)
      | some .reshape, .buffer _ => return .buffer (← toBuffer js)
      | some .iterate, .sequence element vs =>
        .sequence element <$> (targets (S.initial element) vs js).mapM fun p => decodeInto S L room p.1 p.2
      | _, v => throw (.noArrayStrategy v.kind)
    | .enum table _, .text key => .enum table <$> table.ofKey key
    | .record name fields, .object members =>
      .record name <$> members.foldlM
        (fun fields m => Fields.update m.1 (fun v => decodeInto S L room v m.2) fields) fields
    | .leaf l, j => .leaf <$> assignLeaf l j
    | v, j => .error (.typeMismatch v.kind j.kind)

def decode (S : Schema) (L : Limits) (shape : Shape) (tree : Json) : Except Error Value :=
  decodeInto S L (L.maxDepth + 1) (S.initial shape) tree

/-- The value of a shape that a text stands for, by way of the tree that a parser makes of it. -/
def readWith (parse : List Char → Option Json) (S : Schema) (L : Limits) (shape : Shape) (text : String) :
    Except Error Value :=
  match parse text.toList with
  | some tree => decode S L shape tree
  | none => .error .tree

def read : Schema → Limits → Shape → String → Except Error Value := readWith parse?

/-- The value of a shape that a file stands for; a failure is named after the file. -/
def readContent (S : Schema) (L : Limits) (shape : Shape) (content : Content) : Except Error Value :=
  match Utf8.decode content.data with
  | .ok cs => (read S L shape (String.ofList cs)).mapError (·.named content.path)
  | .error _ => .error (Error.tree.named content.path)

end Json
end AssetRecords
