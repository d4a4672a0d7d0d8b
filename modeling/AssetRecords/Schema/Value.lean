import AssetRecords.Schema.EnumTable
import AssetRecords.Schema.Leaf
/-!
# Shapes and values

A shape says what a value may look like; a record type is named by its shape and declared in a `Schema`, so that a
record may hold records of its own type.  A value carries what is needed to change it: an enum its table, a record its
keys, a sequence and an optional the shape of what may be put in.
-/
namespace AssetRecords

inductive Shape where
  | leaf (type : LeafType)
  | enum (table : EnumTable) (initial : Nat)
  | record (name : String)
  | tuple (elements : List Shape)
  /-- A tuple of 32-bit floating-point numbers that start with values of their own. -/
  | vector (initial : List Single)
  /-- A sequence of numbers in one block. -/
  | numbers (type : ScalarType)
  /-- A sequence whose elements stand each for itself. -/
  | sequence (element : Shape)
  | buffer
  | optional (content : Shape)

/-- A value that the formats can write and read. -/
inductive Value where
  | leaf (value : Leaf)
  | enum (table : EnumTable) (variant : Nat)
  | record (name : String) (fields : List (String × Value))
  | tuple (elements : List Value)
  | numbers (type : ScalarType) (elements : List type.Bits)
  | sequence (element : Shape) (elements : List Value)
  | buffer (value : Buffer)
  | absent (content : Shape)
  | present (content : Shape) (value : Value)

instance : Inhabited Value := ⟨.tuple []⟩

def Value.kind : Value → String
  | leaf l => l.kind
  | enum _ _ => "enum"
  | record _ _ => "record"
  | tuple _ => "tuple"
  | numbers _ _ | sequence _ _ => "sequence"
  | buffer _ => "buffer"
  | absent _ | present _ _ => "optional"

def Shape.kind : Shape → String
  | leaf t => t.kind
  | enum _ _ => "enum"
  | record _ => "record"
  | tuple _ | vector _ => "tuple"
  | numbers _ | sequence _ => "sequence"
  | buffer => "buffer"
  | optional _ => "optional"

mutual

/-- The shape that a value has.  A vector has become a tuple, and an enum value is taken for the one to start with. -/
def Value.shape : Value → Shape
  | .leaf l => .leaf l.type
  | .enum table variant => .enum table variant
  | .record name _ => .record name
  | .tuple elements => .tuple (shapes elements)
  | .numbers type _ => .numbers type
  | .sequence element _ => .sequence element
  | .buffer _ => .buffer
  | .absent content | .present content _ => .optional content

def Value.shapes : List Value → List Shape
  | [] => []
  | v :: rest => v.shape :: shapes rest

end

/-- A field of a record type: its key, its shape and the value it starts with. -/
structure FieldType where
  key : String
  shape : Shape
  initial : Value

structure RecordType where
  name : String
  fields : List FieldType

structure Schema where
  records : List RecordType := []

namespace Fields

def find? (key : String) (fields : List (String × Value)) : Option Value := fields.lookup key

/-- The fields after a change to the first one of a key; a key that none has changes nothing. -/
def update (key : String) (change : Value → Except Error Value) :
    List (String × Value) → Except Error (List (String × Value))
  | [] => .ok []
  | (k, v) :: rest =>
    if k = key then (fun v => (k, v) :: rest) <$> change v else ((k, v) :: ·) <$> update key change rest

end Fields

namespace Schema

def find? (S : Schema) (name : String) : Option RecordType := S.records.find? (·.name == name)

def fieldsOf (S : Schema) (name : String) : List FieldType := ((S.find? name).map (·.fields)).getD []

mutual

/-- The value that a shape starts with: zero, empty and absent throughout, but for what a record type, a vector or an
enum says of itself. -/
def initial (S : Schema) : Shape → Value
  | .leaf t => .leaf t.initial
  | .enum table variant => .enum table variant
  | .record name => .record name ((S.fieldsOf name).map fun f => (f.key, f.initial))
  | .tuple elements => .tuple (S.initials elements)
  | .vector xs => .tuple (xs.map fun x => .leaf (.number (.ofSingle x)))
  | .numbers type => .numbers type []
  | .sequence element => .sequence element []
  | .buffer => .buffer {}
  | .optional content => .absent content

def initials (S : Schema) : List Shape → List Value
  | [] => []
  | s :: rest => S.initial s :: S.initials rest

end

/-- A schema with one more record type, whose fields start with what their shapes start with. -/
def declare (S : Schema) (name : String) (fields : List (String × Shape)) : Schema :=
  ⟨S.records ++ [⟨name, fields.map fun f => ⟨f.1, f.2, S.initial f.2⟩⟩]⟩

end Schema
end AssetRecords
