import AssetRecords.Buffer.Operation
import AssetRecords.DebugText.Reader
/-!
# Machine — reading debug text by positions in its bytes

A scanner holds the characters that are left, so there is nowhere for it to go astray.  The machine knows no more than a
position in the bytes of the text.  It looks at single bytes, passes a character of several bytes one byte at a time,
cuts pieces out of the text between two positions, keeps the brackets that it owes on a stack and overwrites a value
that is there already, part by part.  It panics where a cut goes through a character, where an index is not inside and
where a loop does not end with the text.

All that it does is taken down (`Step`), together with the containers within whose brackets it is done; these are known
from the way the readers call each other and not from the stack.
-/
namespace AssetRecords
namespace DebugText

/-- What is read between two brackets. -/
inductive Container where
  | record
  | tuple
  | sequence
  | buffer
  deriving DecidableEq

/-- The bracket that closes what another one opens. -/
def closer : Char → Char
  | '\x7b' => '\x7d'
  | '(' => ')'
  | _ => ']'

namespace Container

def first : Container → Char
  | record => '\x7b'
  | tuple => '('
  | sequence | buffer => '['

def last (c : Container) : Char := closer c.first

end Container

/-- What a machine does in one step. -/
inductive Deed where
  | look
  | move
  | cut (start stop : Nat)
  | pick (index count : Nat)
  | push
  | pop
  deriving DecidableEq

/-- A step, and where the machine is with it: its position, its stack with the innermost bracket last, and the containers
whose parts are being read, the innermost one last. -/
structure Step where
  deed : Deed
  pos : Nat
  stack : List Char
  reading : List Container
  deriving DecidableEq

/-- The machine and its steps so far, the latest one first. -/
structure Machine where
  pos : Nat := 0
  stack : List Char := []
  reading : List Container := []
  steps : List Step := []
  deriving DecidableEq

/-- Why a machine stops before it is done. -/
inductive Stop where
  | failed (e : Error)
  | panicked
  deriving DecidableEq

abbrev Decode := ExceptT Stop (StateM Machine)

/-- The text without so many bytes of its front; nothing if a character would be cut. -/
def dropBytes : (count : Nat) → List Char → Option (List Char)
  | 0, cs => some cs
  | _, [] => none
  | count, c :: rest => if c.utf8Size ≤ count then dropBytes (count - c.utf8Size) rest else none
termination_by structural _ cs => cs

/-- The piece of a text between two positions; nothing if one of them is not between characters. -/
def slice? (text : List Char) (start stop : Nat) : Option (List Char) :=
  if start ≤ stop then (dropBytes start text).bind (takeBytes (stop - start)) else none

/-- A byte, shown as the character of that number. -/
def byteChar (b : UInt8) : Char := Char.ofNat b.toNat

/-- A list of so many elements: those there are, and as many new ones as are missing. -/
def resize {α : Type} (initial : α) (length : Nat) (as : List α) : List α :=
  as.take length ++ List.replicate (length - as.length) initial

namespace Machine

variable {α : Type}

def noted (m : Machine) (deed : Deed) : Machine :=
  { m with steps := ⟨deed, m.pos, m.stack, m.reading⟩ :: m.steps }

def note (deed : Deed) : Decode Unit := modify (·.noted deed)

def here : Decode Nat := do return (← get).pos

def fail (f : SyntaxFault) : Decode α := do throw (.failed (.syntaxFault (← here) f))

def lift : Except Error α → Decode α
  | .ok a => pure a
  | .error e => throw (.failed e)

def moveTo (pos : Nat) : Decode Unit := do
  modify fun m => { m with pos }
  note .move

def push (c : Char) : Decode Unit := do
  modify fun m => { m with stack := m.stack ++ [c] }
  note .push

def pop : Decode (Option Char) := do
  let m ← get
  set { m with stack := m.stack.dropLast }
  note .pop
  return m.stack.getLast?

/-- The element at an index, which has to be there. -/
def pick (index : Nat) (as : List α) : Decode α := do
  note (.pick index as.length)
  match as[index]? with
  | some a => return a
  | none => throw .panicked

/-- What is done within the brackets of a container. -/
def within (c : Container) (run : Decode α) : Decode α := fun m =>
  let (a, m') := run { m with reading := m.reading ++ [c] }
  (a, { m' with reading := m.reading })

section Text

variable (text : List Char)

/-- The byte at a position, if the text goes so far. -/
def byteAt (pos : Nat) : Decode (Option UInt8) := do
  note .look
  return (Utf8.encode text)[pos]?

/-- The piece between two positions, which have to be between characters. -/
def cut (start stop : Nat) : Decode (List Char) := do
  note (.cut start stop)
  match slice? text start stop with
  | some piece => return piece
  | none => throw .panicked

def skipBlanks : Decode Unit := do
  let pos ← here
  let rest ← cut text pos (Utf8.size text)
  moveTo (pos + (Utf8.size rest - Utf8.size (rest.dropWhile Text.isBlank)))

def peek : Decode (Option UInt8) := do
  skipBlanks text
  byteAt text (← here)

def expect (wanted : Char) : Decode Unit := do
  let found ← peek text
  if found = some wanted.toUInt8 then moveTo ((← here) + 1)
  else fail (.expected wanted (found.map byteChar))

def closeBracket : Decode Unit := do
  match ← pop with
  | none => fail .unbalanced
  | some last => expect text last

/-- The brackets of a container, and what is read between them. -/
def brackets (c : Container) (body : Decode α) : Decode α := do
  expect text c.first
  let a ← within c do
    push (closer c.first)
    body
  closeBracket text
  return a

def more : Decode Bool := do
  let found ← peek text
  if found = some ','.toUInt8 then
    moveTo ((← here) + 1)
    return true
  if found.isSome && found == (← get).stack.getLast?.map Char.toUInt8 then return false
  fail (.expectedSeparator (found.map byteChar))

def token : Decode (List Char) := do
  skipBlanks text
  let pos ← here
  let rest ← cut text pos (Utf8.size text)
  let length := Utf8.size (rest.takeWhile (!isDelimiter ·))
  if length = 0 then fail .expectedValue
  moveTo (pos + length)
  cut text pos (pos + length)

/-- The next token, if there is one; the machine goes back to where it was. -/
def peekToken : Decode (Option (List Char)) := do
  let start ← here
  let found ← tryCatch (some <$> token text) fun
    | .failed _ => pure none
    | .panicked => throw .panicked
  moveTo start
  return found

/-- The code point behind a backslash at a position.  Four bytes are passed here, of the six that it has. -/
def codePoint (pos : Nat) : Decode Char := do
  match slice? text (pos + 2) (pos + 6) with
  | none => fail .truncatedEscape
  | some digits =>
    match (codePoint? digits).bind scalarValue? with
    | none => fail (.badCodePoint (String.ofList digits))
    | some c => do
      moveTo (pos + 4)
      return c

/-- The character for which the byte behind a backslash stands. -/
def letter (b : UInt8) : Decode Char :=
  match Quoted.unescape? (byteChar b) with
  | none => fail .badEscape
  | some c => return c

/-- The character of the escape whose backslash is at a position. -/
def escape (pos : Nat) : Decode Char := do
  match ← byteAt text (pos + 1) with
  | none => fail .badEscape
  | some b => if b = 'u'.toUInt8 then codePoint text pos else letter b

/-- The rest of a string, of which `out` is read and all bytes from `start` on stand for themselves. -/
def stringFrom : (fuel start : Nat) → (out : List Char) → Decode (List Char)
  | 0, _, _ => throw .panicked
  | fuel + 1, start, out => do
    let pos ← here
    match ← byteAt text pos with
    | none => fail .unterminatedString
    | some b =>
      if b = '"'.toUInt8 then do
        let piece ← cut text start pos
        moveTo (pos + 1)
        return out ++ piece
      else if b = '\\'.toUInt8 then do
        let piece ← cut text start pos
        let c ← escape text pos
        let start := (← here) + 2
        moveTo start
        stringFrom fuel start (out ++ piece ++ [c])
      else do
        moveTo (pos + 1)
        stringFrom fuel start out

def quoted : Decode (List Char) := do
  expect text '"'
  stringFrom text (Utf8.size text + 1) (← here) []

/-- A loop that goes on while commas follow. -/
def turns (turn : List α → Decode (List α)) : (fuel : Nat) → List α → Decode (List α)
  | 0, _ => throw .panicked
  | fuel + 1, as => do
    let as ← turn as
    if ← more text then turns turn fuel as else return as

/-- A list between square brackets; each turn reads one more element. -/
def elements (c : Container) (turn : List α → Decode (List α)) (as : List α) : Decode (List α) :=
  brackets text c do
    if (← peek text) = some ']'.toUInt8 then return as
    turns text turn (Utf8.size text + 1) as

/-- So many parts are overwritten, from an index on. -/
def overwrite (read : α → Decode α) : (left index : Nat) → List α → Decode (List α)
  | 0, _, as => return as
  | left + 1, index, as => do
    if 0 < index then expect text ','
    let a ← read (← pick index as)
    overwrite read left (index + 1) (as.set index a)

/-- One more element: it is put in with its initial value, and then overwritten. -/
def lengthen (L : Limits) (initial : α) (read : α → Decode α) (as : List α) : Decode (List α) := do
  let length := as.length
  lift (L.checkCount (length + 1))
  let as := resize initial (length + 1) as
  let a ← read (← pick length as)
  return as.set length a

def number (L : Limits) (ns : List Number) : Decode (List Number) := do
  let token ← token text
  match Number.parse? token with
  | none => fail (.badNumber (String.ofList token))
  | some n => do
    lift (L.checkCount (ns ++ [n]).length)
    return ns ++ [n]

/-- Numbers are stored in a buffer, from an index on. -/
def store : List Number → (index : Nat) → Buffer → Decode Buffer
  | [], _, b => return b
  | n :: rest, index, b =>
    match b.perform (.store index n) with
    | (.refused e, _) => throw (.failed e)
    | (.done, changed) => do
      note (.pick index b.length)
      store rest (index + 1) changed
    | (.outOfRange, _) => do
      note (.pick index b.length)
      throw .panicked

def buffer (L : Limits) : Decode Buffer := do
  let name := String.ofList (← token text)
  match ScalarType.ofName? name with
  | none => fail (.elementType name)
  | some type => do
    let numbers ← elements text .buffer (number text L) []
    store numbers 0 (← lift (Buffer.zeroed type numbers.length))

def leaf : LeafType → Decode Leaf
  | .text => do return .text (String.ofList (← quoted text))
  | type => do lift (type.parse (← token text))

/-- A value is overwritten with one of its shape, with room for so many levels of parts. -/
def value (S : Schema) (L : Limits) : (room : Nat) → Value → Decode Value
  | 0, _ => throw (.failed (.depthLimit L.maxDepth))
  | room + 1, v =>
    match v with
    | .leaf l => .leaf <$> leaf text l.type
    | .enum table _ => do return .enum table (← lift (table.ofKey (String.ofList (← token text))))
    | .record name fields =>
      .record name <$> brackets text .record
        (overwrite text (fun f => do return (f.1, ← value S L room f.2)) fields.length 0 fields)
    | .tuple vs => .tuple <$> brackets text .tuple (overwrite text (value S L room) vs.length 0 vs)
    | .numbers type ns =>
      let read : type.Bits → Decode type.Bits := fun _ => do
        if room = 0 then throw (.failed (.depthLimit L.maxDepth))
        lift (type.parse (← token text))
      .numbers type <$> elements text .sequence (lengthen L 0 read) (resize 0 0 ns)
    | .sequence element vs =>
      .sequence element <$> elements text .sequence (lengthen L (S.initial element) (value S L room))
        (resize (S.initial element) 0 vs)
    | .buffer _ => .buffer <$> buffer text L
    | .absent content | .present content _ => do
      if (← peekToken text) = some "null".toList then
        discard (token text)
        return .absent content
      return .present content (← value S L room (S.initial content))

/-- A value is overwritten with the one that the text has, and the text ends with it. -/
def decode (S : Schema) (L : Limits) (v : Value) : Decode Value := do
  let v ← value text S L (L.maxDepth + 1) v
  if (← peek text).isSome then fail .trailing
  return v

end Text

end Machine
end DebugText
end AssetRecords
