import AssetRecords.Json.Numeral
import AssetRecords.Json.Tree
import AssetRecords.Text.Quoted
import AssetRecords.Text.Utf8
/-!
# Reading JSON

The grammar of RFC 8259 and nothing beside it.  Arrays and objects may nest so deep and no deeper, and of members with
equal keys the last one counts.  What a number is read as is left to a reader of numbers, which may refuse it.
-/
namespace AssetRecords
namespace Json

def maxNesting : Nat := 127

def isSpace (c : Char) : Bool := c == ' ' || c == '\t' || c == '\n' || c == '\r'

def skipSpace (cs : List Char) : List Char := cs.dropWhile isSpace

def word? (word : List Char) (cs : List Char) : Option (List Char) :=
  if word.isPrefixOf cs then some (cs.drop word.length) else none

/-- A character that a number is made of. -/
def inNumber (c : Char) : Bool := c.isDigit || ['-', '+', '.', 'e', 'E'].contains c

/-- A number goes on as long as there are characters for it. -/
def number? (number : List Char → Option Number) : Reader Number := fun cs =>
  (number (cs.takeWhile inNumber)).map (·, cs.dropWhile inNumber)

def codeUnit? : Reader Nat
  | a :: b :: c :: d :: rest => (Quoted.hex? [a, b, c, d]).map (·, rest)
  | _ => none

/-- The character of an escape by code units, behind its `u`: one unit, or a high and a low surrogate. -/
def unicodeEscape? : Reader Char := fun cs => do
  let (unit, rest) ← codeUnit? cs
  if unit < 0xd800 ∨ 0xdfff < unit then return (Char.ofNat unit, rest)
  else if unit < 0xdc00 then
    match rest with
    | '\\' :: 'u' :: rest =>
      let (low, rest) ← codeUnit? rest
      if 0xdc00 ≤ low ∧ low ≤ 0xdfff then
        return (Char.ofNat (0x10000 + (unit - 0xd800) * 0x400 + (low - 0xdc00)), rest)
      else none
    | _ => none
  else none

/-- The characters of a string behind its opening quote, up to its closing quote. -/
def stringBody? : (fuel : Nat) → Reader (List Char)
  | 0, _ => none
  | fuel + 1, cs =>
    match cs with
    | [] => none
    | '"' :: rest => some ([], rest)
    | '\\' :: 'u' :: rest => do
      let (c, rest) ← unicodeEscape? rest
      let (cs, rest) ← stringBody? fuel rest
      return (c :: cs, rest)
    | '\\' :: rest => do
      let c ← rest.head?.bind Quoted.unescape?
      let (cs, rest) ← stringBody? fuel (rest.drop 1)
      return (c :: cs, rest)
    | c :: rest =>
      if c.toNat < 0x20 then none
      else do
        let (cs, rest) ← stringBody? fuel rest
        return (c :: cs, rest)

def string? : Reader String := fun cs =>
  match cs with
  | '"' :: rest => (stringBody? (rest.length + 1) rest).map fun r => (String.ofList r.1, r.2)
  | _ => none

/-- Items up to a closing bracket, with commas between them and at least one of them. -/
def items? {α : Type} (item : Reader α) (closer : Char) : (fuel : Nat) → Reader (List α)
  | 0, _ => none
  | fuel + 1, cs => do
    let (first, cs) ← item (skipSpace cs)
    match skipSpace cs with
    | ',' :: cs => do
      let (rest, cs) ← items? item closer fuel cs
      return (first :: rest, cs)
    | c :: cs => if c = closer then return ([first], cs) else none
    | [] => none

/-- Items between brackets, of which the opening one is taken already. -/
def list? {α : Type} (item : Reader α) (closer : Char) : Reader (List α) := fun cs =>
  match skipSpace cs with
  | c :: rest => if c = closer then some ([], rest) else items? item closer (cs.length + 1) cs
  | [] => none

def member? (value : Reader Json) : Reader (String × Json) := fun cs => do
  let (key, cs) ← string? cs
  match skipSpace cs with
  | ':' :: cs => do
    let (v, cs) ← value (skipSpace cs)
    return ((key, v), cs)
  | _ => none

/-- A value at the front, with room for so many levels of arrays and objects. -/
def value? (number : List Char → Option Number) : (room : Nat) → Reader Json
  | room, cs =>
    match cs with
    | 'n' :: _ => (word? "null".toList cs).map (null, ·)
    | 't' :: _ => (word? "true".toList cs).map (bool true, ·)
    | 'f' :: _ => (word? "false".toList cs).map (bool false, ·)
    | '"' :: _ => (string? cs).map fun r => (text r.1, r.2)
    | '[' :: rest =>
      match room with
      | 0 => none
      | room + 1 => (list? (value? number room) ']' rest).map fun r => (array r.1, r.2)
    | '\x7b' :: rest =>
      match room with
      | 0 => none
      | room + 1 =>
        (list? (member? (value? number room)) '\x7d' rest).map fun r =>
          (object (r.1.foldl (fun members m => insertMember m.1 m.2 members) []), r.2)
    | _ => (number? number cs).map fun r => (.number r.1, r.2)

/-- The tree of a text, which holds one value and blanks around it. -/
def parseWith? (number : List Char → Option Number) (cs : List Char) : Option Json := do
  let (tree, rest) ← value? number maxNesting (skipSpace cs)
  if (skipSpace rest).isEmpty then return tree else none

def parse? : List Char → Option Json := parseWith? readNumber?

end Json
end AssetRecords
