import AssetRecords.Schema.Value
import AssetRecords.Text.Blank
/-!
# Reading settings

Lines `key=value` go to the root until a header names one of its records, and from there to that record.  Blank lines and
lines that begin with `;` or `#` mean nothing; keys and headers that the record does not know are passed over.
-/
namespace AssetRecords
namespace Settings

/-- Where the lines go at present. -/
inductive Target where
  | root
  | block (key : String)
  | nowhere
  deriving DecidableEq

structure State where
  fields : List (String × Value)
  target : Target

def parse : Shape → List Char → Except Error Value
  | .leaf type, text => .leaf <$> type.parse text
  | .enum table _, text => .enum table <$> table.ofKey (String.ofList text)
  | .optional content, text => .present content <$> parse content text
  | shape, _ => .error (.inexpressible (.shapeInSettings shape.kind))

/-- A field made ready to take lines, if it can: a record, or an optional one, which is present from then on. -/
def openBlock? (S : Schema) : Value → Option Value
  | .record name fields => some (.record name fields)
  | .absent content =>
    match S.initial content with
    | .record name fields => some (.present content (.record name fields))
    | _ => none
  | .present content (.record name fields) => some (.present content (.record name fields))
  | _ => none

/-- A value after a change to the fields of the record that it is or holds. -/
def updateBlock (change : List (String × Value) → Except Error (List (String × Value))) : Value → Except Error Value
  | .record name fields => .record name <$> change fields
  | .present content (.record name fields) => (.present content <| .record name ·) <$> change fields
  | v => .ok v

def turn (S : Schema) (name : String) (s : State) : Except Error State :=
  match (Fields.find? name s.fields).bind (openBlock? S) with
  | none => .ok { s with target := .nowhere }
  | some v => do return ⟨← Fields.update name (fun _ => .ok v) s.fields, .block name⟩

/-- A failure to assign is one of syntax where the text does not spell a value of the field. -/
def describe (offset : Nat) (key : String) : Error → Error
  | .typeMismatch expected actual => .syntaxFault offset (.badValue key expected actual)
  | e => e

/-- The fields after a line `key=text`; an unknown key changes nothing. -/
def assign (offset : Nat) (key : String) (text : List Char) (fields : List (String × Value)) :
    Except Error (List (String × Value)) :=
  (Fields.update key (fun old => parse old.shape text) fields).mapError (describe offset key)

/-- What a line does, by its text without the blanks at its ends. -/
def readLine (S : Schema) (offset : Nat) (line : List Char) (s : State) : Except Error State :=
  match line with
  | [] | ';' :: _ | '#' :: _ => .ok s
  | '[' :: rest =>
    if rest.getLast? = some ']' then turn S (String.ofList (Text.trim rest.dropLast)) s
    else .error (.syntaxFault offset (.unterminatedHeader (String.ofList line)))
  | _ =>
    if line.contains '=' then
      let key := String.ofList (Text.trim (line.takeWhile (· != '=')))
      let text := Text.trim ((line.dropWhile (· != '=')).drop 1)
      match s.target with
      | .nowhere => .ok s
      | .root => (fun fields => { s with fields }) <$> assign offset key text s.fields
      | .block name =>
        (fun fields => { s with fields }) <$> Fields.update name (updateBlock (assign offset key text)) s.fields
    else .error (.syntaxFault offset (.notAssignment (String.ofList line)))

def splitLines : List Char → List (List Char)
  | [] => [[]]
  | c :: rest =>
    if c = '\n' then [] :: splitLines rest
    else
      match splitLines rest with
      | line :: lines => (c :: line) :: lines
      | [] => [[c]]

/-- What lines do, the first of which begins at a number of bytes. -/
def readLines (S : Schema) : (offset : Nat) → List (List Char) → State → Except Error State
  | _, [], s => .ok s
  | offset, line :: rest, s => do
    readLines S (offset + Utf8.size line + 1) rest (← readLine S offset (Text.trim line) s)

def read (S : Schema) (shape : Shape) (text : String) : Except Error Value :=
  match S.initial shape with
  | .record name fields => do
    let s ← readLines S 0 (splitLines text.toList) ⟨fields, .root⟩
    return .record name s.fields
  | _ => .error (.inexpressible .rootNotRecord)

end Settings
end AssetRecords
