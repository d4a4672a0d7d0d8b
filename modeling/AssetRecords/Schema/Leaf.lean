import AssetRecords.Buffer.Basic
/-!
# Leaves

A leaf is a truth value, a number or a text.  It keeps its type: whatever is assigned to it becomes a value of that type
or is refused.
-/
namespace AssetRecords

inductive LeafType where
  | bool
  | number (type : ScalarType)
  | text
  deriving DecidableEq, Repr

/-- A value without parts. -/
inductive Leaf where
  | bool (value : Bool)
  | number (value : Scalar)
  | text (value : String)
  deriving DecidableEq

def LeafType.kind : LeafType → String
  | bool => "bool"
  | number type => type.name
  | text => "string"

def LeafType.initial : LeafType → Leaf
  | bool => .bool false
  | number type => .number ⟨type, 0⟩
  | text => .text ""

namespace Leaf

def type : Leaf → LeafType
  | bool _ => .bool
  | number n => .number n.type
  | text _ => .text

def kind (l : Leaf) : String := l.type.kind

def chars : Leaf → List Char
  | bool true => "true".toList
  | bool false => "false".toList
  | number n => n.chars
  | text s => s.toList

def setNumber (l : Leaf) (n : Number) : Except Error Leaf :=
  match l with
  | number old => (number ⟨old.type, ·⟩) <$> old.type.narrow n
  | _ => .error (.typeMismatch l.kind "number")

def setBool (l : Leaf) (b : Bool) : Except Error Leaf :=
  match l with
  | bool _ => .ok (bool b)
  | _ => .error (.typeMismatch l.kind "bool")

def setText (l : Leaf) (s : String) : Except Error Leaf :=
  match l with
  | text _ => .ok (text s)
  | _ => .error (.typeMismatch l.kind "string")

end Leaf

/-- The leaf of a type that a token without quotes spells. -/
def LeafType.parse (t : LeafType) (token : List Char) : Except Error Leaf :=
  match t with
  | bool =>
    if token = "true".toList then .ok (.bool true)
    else if token = "false".toList then .ok (.bool false)
    else .error (.typeMismatch t.kind (Text.inQuotes (String.ofList token)))
  | number type => (.number ⟨type, ·⟩) <$> type.parse token
  | text => .ok (.text (String.ofList token))

end AssetRecords
