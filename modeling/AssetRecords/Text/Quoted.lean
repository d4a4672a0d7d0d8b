/-!
# Quoted strings

A string stands between double quotes.  A quote, a backslash and every control character is written as an escape; all
else stands for itself.
-/
namespace AssetRecords
namespace Quoted

/-- The escape of a character, if it needs one. -/
def escape? (c : Char) : Option (List Char) :=
  match c with
  | '"' => some ['\\', '"']
  | '\\' => some ['\\', '\\']
  | '\n' => some ['\\', 'n']
  | '\r' => some ['\\', 'r']
  | '\t' => some ['\\', 't']
  | '\x08' => some ['\\', 'b']
  | '\x0c' => some ['\\', 'f']
  | _ =>
    if c.toNat < 0x20 ∨ c.toNat = 0x7f then
      some ['\\', 'u', '0', '0', Nat.digitChar (c.toNat / 16), Nat.digitChar (c.toNat % 16)]
    else none

/-- The pieces of a string between its quotes: the characters since the last escape, which `run` holds in reverse, and
the escapes. -/
def body (run : List Char) : List Char → List (List Char)
  | [] => [run.reverse]
  | c :: rest =>
    match escape? c with
    | some escape => run.reverse :: escape :: body [] rest
    | none => body (c :: run) rest

/-- The pieces of a quoted string, its quotes among them. -/
def pieces (cs : List Char) : List (List Char) := ['"'] :: body [] cs ++ [['"']]

def encode (cs : List Char) : List Char := (pieces cs).flatten

/-- What an escape of two characters stands for, by its second character. -/
def unescape? : Char → Option Char
  | '"' => some '"'
  | '\\' => some '\\'
  | '/' => some '/'
  | 'n' => some '\n'
  | 'r' => some '\r'
  | 't' => some '\t'
  | 'b' => some '\x08'
  | 'f' => some '\x0c'
  | _ => none

def hexDigit? (c : Char) : Option Nat :=
  if '0' ≤ c ∧ c ≤ '9' then some (c.toNat - '0'.toNat)
  else if 'a' ≤ c ∧ c ≤ 'f' then some (c.toNat - 'a'.toNat + 10)
  else if 'A' ≤ c ∧ c ≤ 'F' then some (c.toNat - 'A'.toNat + 10)
  else none

def hex? (cs : List Char) : Option Nat :=
  cs.foldlM (fun n c => (hexDigit? c).map (16 * n + ·)) 0

end Quoted
end AssetRecords
