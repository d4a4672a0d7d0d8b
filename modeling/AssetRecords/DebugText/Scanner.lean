import AssetRecords.Limits
import AssetRecords.Text.Blank
import AssetRecords.Text.Quoted
/-!
# Scanning debug text

A scanner holds what is left of a text, how many bytes came before it, and the closing brackets that are still owed.
Blanks between tokens mean nothing.
-/
namespace AssetRecords
namespace DebugText

/-- A position within a text and the brackets that are open there, the innermost one first. -/
structure Scanner where
  offset : Nat
  rest : List Char
  closers : List Char
  deriving DecidableEq

abbrev Scan := StateT Scanner (Except Error)

namespace Scanner

def start (cs : List Char) : Scanner := ⟨0, cs, []⟩

def advance (s : Scanner) (count : Nat) : Scanner :=
  { s with offset := s.offset + Utf8.size (s.rest.take count), rest := s.rest.drop count }

def skipBlanks (s : Scanner) : Scanner := s.advance (s.rest.takeWhile Text.isBlank).length

def fault (s : Scanner) (f : SyntaxFault) : Error := .syntaxFault s.offset f

end Scanner

/-- Messages show the first byte of what was found as a character. -/
def firstByte (c : Char) : Char :=
  match String.utf8EncodeChar c with
  | b :: _ => Char.ofNat b.toNat
  | [] => c

def isDelimiter (c : Char) : Bool :=
  Text.isBlank c || c == ',' || c == '\x7b' || c == '\x7d' || c == '(' || c == ')' || c == '[' || c == ']' || c == '"'

def failWith {α : Type} (f : SyntaxFault) : Scan α := do throw ((← get).fault f)

def peek : Scan (Option Char) := do
  modify Scanner.skipBlanks
  return (← get).rest.head?

def expect (wanted : Char) : Scan Unit := do
  let found ← peek
  if found = some wanted then modify (·.advance 1)
  else failWith (.expected wanted (found.map firstByte))

/-- Takes an opening bracket; its closing one is owed from here on. -/
def openBracket (first last : Char) : Scan Unit := do
  expect first
  modify fun s => { s with closers := last :: s.closers }

def closeBracket : Scan Unit := do
  match (← get).closers with
  | [] => failWith .unbalanced
  | last :: closers =>
    modify fun s => { s with closers }
    expect last

/-- Takes a comma between two elements, or finds that the bracket closes. -/
def more : Scan Bool := do
  match ← peek, (← get).closers with
  | some ',', _ => do
    modify (·.advance 1)
    return true
  | found, closers =>
    if found.isSome && found == closers.head? then return false
    failWith (.expectedSeparator (found.map firstByte))

/-- Takes a token without quotes, up to the next delimiter. -/
def token : Scan (List Char) := do
  modify Scanner.skipBlanks
  let s ← get
  let token := s.rest.takeWhile (!isDelimiter ·)
  if token.isEmpty then failWith .expectedValue
  set (s.advance token.length)
  return token

def nextToken (s : Scanner) : List Char := s.skipBlanks.rest.takeWhile (!isDelimiter ·)

/-- The characters that take up the next bytes, as many as asked for; nothing if a character would be cut. -/
def takeBytes : (count : Nat) → List Char → Option (List Char)
  | 0, _ => some []
  | _, [] => none
  | count, c :: rest =>
    if c.utf8Size ≤ count then (c :: ·) <$> takeBytes (count - c.utf8Size) rest else none
termination_by structural _ cs => cs

/-- The number that the digits of an escape spell; one plus sign before them is passed over. -/
def codePoint? (digits : List Char) : Option Nat :=
  match digits with
  | '+' :: rest => Quoted.hex? rest
  | _ => Quoted.hex? digits

def scalarValue? (n : Nat) : Option Char := if h : n.isValidChar then some (Char.ofNatAux n h) else none

/-- The rest of a string behind its opening quote: its characters and the position behind its closing quote.  `fuel` is
a bound on the number of characters. -/
def stringBody : (fuel : Nat) → Scanner → Except Error (List Char × Scanner)
  | 0, s => .error (s.fault .unterminatedString)
  | fuel + 1, s =>
    match s.rest with
    | [] => .error (s.fault .unterminatedString)
    | '"' :: _ => .ok ([], s.advance 1)
    | '\\' :: 'u' :: rest =>
      match takeBytes 4 rest with
      | none => .error (s.fault .truncatedEscape)
      | some digits =>
        match (codePoint? digits).bind scalarValue? with
        | none => .error (s.fault (.badCodePoint (String.ofList digits)))
        | some c => (fun r => (c :: r.1, r.2)) <$> stringBody fuel (s.advance (2 + digits.length))
    | '\\' :: rest =>
      match rest.head?.bind Quoted.unescape? with
      | none => .error (s.fault .badEscape)
      | some c => (fun r => (c :: r.1, r.2)) <$> stringBody fuel (s.advance 2)
    | c :: _ => (fun r => (c :: r.1, r.2)) <$> stringBody fuel (s.advance 1)

def quoted : Scan (List Char) := do
  expect '"'
  let s ← get
  let (cs, s) ← stringBody (s.rest.length + 1) s
  set s
  return cs

end DebugText
end AssetRecords
