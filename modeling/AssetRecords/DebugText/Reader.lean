import AssetRecords.DebugText.Scanner
import AssetRecords.Schema.Value
/-!
# Reading debug text

The shape that is asked for drives the reading, so that no text says of what type it is, buffers apart.
-/
namespace AssetRecords
namespace DebugText

/-- No list has as many elements as the text has characters left: each element takes at least one. -/
def Scanner.fuel (s : Scanner) : Nat := s.rest.length + 1

/-- The elements up to the closing bracket, `count` of them being read already. -/
def elementsFrom {α : Type} (element : Nat → Scan α) : (fuel count : Nat) → Scan (List α)
  | 0, _ => failWith .expectedValue
  | fuel + 1, count => do
    let first ← element (count + 1)
    if ← more then return first :: (← elementsFrom element fuel (count + 1))
    return [first]

/-- The elements between two square brackets; `element` is told how many there are with the one it reads. -/
def elements {α : Type} (element : Nat → Scan α) : Scan (List α) := do
  openBracket '[' ']'
  let found ← peek
  let read ← if found = some ']' then pure [] else elementsFrom element (← get).fuel 0
  closeBracket
  return read

/-- The parts between two brackets, as many as there are readers. -/
def parts {α : Type} (first last : Char) (readers : List (Scan α)) : Scan (List α) := do
  openBracket first last
  let read ← match readers with
    | [] => pure []
    | reader :: rest => do
      let head ← reader
      let tail ← rest.mapM fun reader => do
        expect ','
        reader
      pure (head :: tail)
  closeBracket
  return read

def readLeaf : LeafType → Scan Leaf
  | .text => do return .text (String.ofList (← quoted))
  | type => do type.parse (← token)

def readNumber (L : Limits) (count : Nat) : Scan Number := do
  let token ← token
  let some n := Number.parse? token | failWith (.badNumber (String.ofList token))
  L.checkCount count
  return n

/-- A buffer: its numbers are counted as they are read, and stored when its bracket is closed. -/
def readBuffer (L : Limits) : Scan Buffer := do
  let name := String.ofList (← token)
  let some type := ScalarType.ofName? name | failWith (.elementType name)
  Buffer.ofNumbers type (← elements (readNumber L))

/-- A value of a shape, with room for so many levels of parts. -/
def readValue (S : Schema) (L : Limits) : (room : Nat) → Shape → Scan Value
  | 0, _ => throw (.depthLimit L.maxDepth)
  | room + 1, shape =>
    match shape with
    | .leaf type => .leaf <$> readLeaf type
    | .enum table _ => do return .enum table (← table.ofKey (String.ofList (← token)))
    | .record name =>
      .record name <$> parts '\x7b' '\x7d' ((S.fieldsOf name).map fun f => do
        return (f.key, ← readValue S L room f.shape))
    | .tuple elements => .tuple <$> parts '(' ')' (elements.map (readValue S L room))
    | .vector xs => .tuple <$> parts '(' ')' (xs.map fun _ => readValue S L room (.leaf (.number .float32)))
    | .numbers type =>
      .numbers type <$> elements fun count => do
        L.checkCount count
        if room = 0 then throw (.depthLimit L.maxDepth)
        type.parse (← token)
    | .sequence element =>
      .sequence element <$> elements fun count => do
        L.checkCount count
        readValue S L room element
    | .buffer => .buffer <$> readBuffer L
    | .optional content => do
      if nextToken (← get) = "null".toList then
        discard token
        return .absent content
      return .present content (← readValue S L room content)

def read (S : Schema) (L : Limits) (shape : Shape) (text : String) : Except Error Value := do
  let (v, s) ← readValue S L (L.maxDepth + 1) shape (.start text.toList)
  let s := s.skipBlanks
  if s.rest.isEmpty then return v
  throw (s.fault .trailing)

end DebugText
end AssetRecords
