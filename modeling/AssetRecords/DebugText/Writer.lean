import AssetRecords.Schema.Value
import AssetRecords.Text.Quoted
/-!
# Writing debug text

A record is written as `{a, b}`, a tuple as `(a, b)`, a sequence as `[a, b]` and a buffer as `uint16_t[1, 2]`.  Texts
stand in quotes, an enum is its bare key, and an absent optional is `null`.
-/
namespace AssetRecords
namespace DebugText

def commaSeparated : List (List Char) → List Char
  | [] => []
  | [part] => part
  | part :: rest => part ++ ',' :: ' ' :: commaSeparated rest

def openBrace : Char := '\x7b'
def closeBrace : Char := '\x7d'

def bracketed (first last : Char) (parts : List (List Char)) : List Char :=
  first :: commaSeparated parts ++ [last]

def writeLeaf : Leaf → List Char
  | .text s => Quoted.encode s.toList
  | l => l.chars

def writeBuffer (b : Buffer) : List Char :=
  b.type.name.toList ++ bracketed '[' ']' (b.scalars.map Scalar.chars)

mutual

/-- The debug text of a value.  Only an enum value that its table does not list has none. -/
def write : Value → Except Error (List Char)
  | .leaf l => .ok (writeLeaf l)
  | .enum table variant => String.toList <$> table.key variant
  | .record _ fields => bracketed openBrace closeBrace <$> writeFields fields
  | .tuple elements => bracketed '(' ')' <$> writeAll elements
  | .numbers type elements => .ok (bracketed '[' ']' (elements.map fun bits => Scalar.chars ⟨type, bits⟩))
  | .sequence _ elements => bracketed '[' ']' <$> writeAll elements
  | .buffer b => .ok (writeBuffer b)
  | .absent _ => .ok "null".toList
  | .present _ v => write v

def writeFields : List (String × Value) → Except Error (List (List Char))
  | [] => .ok []
  | (_, v) :: rest => do return (← write v) :: (← writeFields rest)

def writeAll : List Value → Except Error (List (List Char))
  | [] => .ok []
  | v :: rest => do return (← write v) :: (← writeAll rest)

end

def render (v : Value) : Except Error String := String.ofList <$> write v

end DebugText
end AssetRecords
