/-!
# Prefix codes

A code is a binary tree with a symbol at each leaf.  It is given by the length of each symbol's code word alone: the
words of one length are in the order of their symbols, and shorter words come before longer ones.
-/
namespace AssetRecords
namespace Deflate

abbrev Bits := List Bool

/-- Why reading bits stops: they are at an end, so that more of them may help, or no stream goes on like this. -/
inductive Halt where
  | starved
  | corrupt
  deriving DecidableEq, Repr

abbrev BitReading := StateT Bits (Except Halt)

/-- A prefix code; the words of the empty code are those that no symbol has. -/
inductive Code where
  | empty
  | symbol (n : Nat)
  | fork (zero one : Code)
  deriving DecidableEq, Repr

def maxLength : Nat := 15

/-- Neighbours joined; one that has none is joined with the empty code. -/
def pairUp : List Code → List Code
  | [] => []
  | [a] => [.fork a .empty]
  | a :: b :: rest => .fork a b :: pairUp rest

def symbolsOf (lengths : List Nat) (length : Nat) : List Code :=
  (lengths.zipIdx.filter (·.1 == length)).map fun s => .symbol s.2

/-- The subtrees so many levels above the deepest one, from left to right: first the symbols of that length, then what
branches on. -/
def subtrees (lengths : List Nat) : (levels : Nat) → List Code
  | 0 => symbolsOf lengths maxLength
  | levels + 1 => symbolsOf lengths (maxLength - (levels + 1)) ++ pairUp (subtrees lengths levels)

namespace Code

/-- The code of the given lengths, of which zero means that a symbol has no word.  Lengths that ask for more words than
there are give none. -/
def ofLengths? (lengths : List Nat) : Option Code :=
  match pairUp (subtrees lengths (maxLength - 1)) with
  | [] => some .empty
  | [code] => some code
  | _ => none

def isComplete : Code → Bool
  | empty => false
  | symbol _ => true
  | fork zero one => zero.isComplete && one.isComplete

def read : Code → BitReading Nat
  | empty, _ => .error .corrupt
  | symbol n, bits => .ok (n, bits)
  | fork _ _, [] => .error .starved
  | fork zero one, b :: bits => if b then one.read bits else zero.read bits

end Code
end Deflate
end AssetRecords
