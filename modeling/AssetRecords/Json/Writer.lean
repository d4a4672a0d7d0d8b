import AssetRecords.Schema.Value
import AssetRecords.Text.Quoted
/-!
# Writing JSON

A value is written piece by piece.  Records become objects in the order of their fields, absent optionals left out; all
other parts stand in one line, and each member of an object has a line of its own unless the layout is compact.
-/
namespace AssetRecords
namespace Json

/-- How a text is laid out: over several lines, indented with a character for each level, or in one line. -/
structure Layout where
  indent : Char := '\t'
  pretty : Bool := true
  deriving DecidableEq, Repr

/-- What writing gives: the pieces up to the end, or up to the part that cannot be written. -/
structure Emission where
  pieces : List (List Char) := []
  refusal : Option Error := none

namespace Emission

def piece (cs : List Char) : Emission := ⟨[cs], none⟩

def refuse (e : Error) : Emission := ⟨[], some e⟩

/-- One emission after another; a refusal ends the first one. -/
def append (a b : Emission) : Emission :=
  match a.refusal with
  | some e => ⟨a.pieces, some e⟩
  | none => ⟨a.pieces ++ b.pieces, b.refusal⟩

instance : Append Emission := ⟨append⟩

end Emission

def Layout.colon (layout : Layout) : Emission :=
  .piece (if layout.pretty then [' ', ':', ' '] else [':'])

def Layout.separator (layout : Layout) : Emission :=
  .piece (if layout.pretty then [',', ' '] else [','])

def Layout.newline (layout : Layout) (depth : Nat) : Emission :=
  if layout.pretty then ⟨['\n'] :: List.replicate depth [layout.indent], none⟩ else {}

def writeText (s : String) : Emission := ⟨Quoted.pieces s.toList, none⟩

/-- A number; an infinity or a NaN has no JSON. -/
def writeNumber (n : Scalar) : Emission :=
  if n.isFinite then .piece n.chars
  else
    match n.toNumber with
    | .float x => .refuse (.inexpressible (.notFinite x))
    | _ => .piece n.chars

def writeLeaf : Leaf → Emission
  | .text s => writeText s
  | .number n => writeNumber n
  | l => .piece l.chars

def writeNumbersAfter (layout : Layout) : List Scalar → Emission
  | [] => {}
  | n :: rest => layout.separator ++ writeNumber n ++ writeNumbersAfter layout rest

def writeNumbers (layout : Layout) (ns : List Scalar) : Emission :=
  let elements := match ns with
    | [] => {}
    | n :: rest => writeNumber n ++ writeNumbersAfter layout rest
  .piece ['['] ++ elements ++ .piece [']']

def isAbsent : Value → Bool
  | .absent _ => true
  | _ => false

mutual

def write (layout : Layout) (depth : Nat) : Value → Emission
  | .leaf l => writeLeaf l
  | .enum table variant =>
    match table.key variant with
    | .ok key => writeText key
    | .error e => .refuse e
  | .record _ fields =>
    if fields.all fun f => isAbsent f.2 then .piece ['\x7b', '\x7d']
    else .piece ['\x7b'] ++ writeFields layout depth true fields ++ layout.newline depth ++ .piece ['\x7d']
  | .tuple elements => .piece ['['] ++ writeElements layout depth true elements ++ .piece [']']
  | .numbers type elements => writeNumbers layout (elements.map (.mk type))
  | .sequence _ elements => .piece ['['] ++ writeElements layout depth true elements ++ .piece [']']
  | .buffer b => writeNumbers layout b.scalars
  | .absent _ => .piece ['n', 'u', 'l', 'l']
  | .present _ v => write layout depth v

/-- The members of an object at a depth, with a comma before each one that is not the first. -/
def writeFields (layout : Layout) (depth : Nat) (first : Bool) : List (String × Value) → Emission
  | [] => {}
  | (key, v) :: rest =>
    if isAbsent v then writeFields layout depth first rest
    else
      (if first then {} else .piece [',']) ++ layout.newline (depth + 1) ++ writeText key ++ layout.colon ++
        write layout (depth + 1) v ++ writeFields layout depth false rest

/-- The elements of an array at a depth, with a comma before each one that is not the first. -/
def writeElements (layout : Layout) (depth : Nat) (first : Bool) : List Value → Emission
  | [] => {}
  | v :: rest =>
    (if first then {} else layout.separator) ++ write layout depth v ++ writeElements layout depth false rest

end

end Json
end AssetRecords
