import AssetRecords.Error
/-!
# Tables of enum values

A table lists the values of an enum with their keys, in order.  Nothing forbids it to list a value or a key twice: every
search takes the first row that fits.
-/
namespace AssetRecords

/-- The values of an enum, by their number among its variants, each with its key. -/
structure EnumTable where
  name : String
  rows : List (Nat × String)
  deriving DecidableEq, Repr

namespace EnumTable

def keyOf? (t : EnumTable) (variant : Nat) : Option String := (t.rows.find? (·.1 == variant)).map (·.2)

def valueOf? (t : EnumTable) (key : String) : Option Nat := (t.rows.find? (·.2 == key)).map (·.1)

def ordinalOf? (t : EnumTable) (variant : Nat) : Option Nat := t.rows.findIdx? (·.1 == variant)

def byOrdinal? (t : EnumTable) (ordinal : Nat) : Option Nat := t.rows[ordinal]?.map (·.1)

/-- A variant that its table does not list cannot be written. -/
def unlisted (t : EnumTable) : Error := .unknownEnumKey t.name "<unlisted variant>"

def key (t : EnumTable) (variant : Nat) : Except Error String :=
  match t.keyOf? variant with
  | some key => .ok key
  | none => .error t.unlisted

def ordinal (t : EnumTable) (variant : Nat) : Except Error Nat :=
  match t.ordinalOf? variant with
  | some ordinal => .ok ordinal
  | none => .error t.unlisted

def ofKey (t : EnumTable) (key : String) : Except Error Nat :=
  match t.valueOf? key with
  | some variant => .ok variant
  | none => .error (.unknownEnumKey t.name key)

def ofOrdinal (t : EnumTable) (ordinal : Nat) : Except Error Nat :=
  match t.byOrdinal? ordinal with
  | some variant => .ok variant
  | none => .error (.unknownEnumKey t.name s!"#{ordinal}")

end EnumTable
end AssetRecords
