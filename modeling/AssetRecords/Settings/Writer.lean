import AssetRecords.Schema.Value
/-!
# Writing settings

A record is written as lines `key=value`, its own leaves first.  Each of its records follows as a section: a header
`[key]`, then the leaves of that record.  There is no deeper level, and no line holds a sequence, a tuple or a buffer.
-/
namespace AssetRecords
namespace Settings

/-- What a field becomes. -/
inductive Entry where
  | line (text : List Char)
  | block (fields : List (String × Value))
  | nothing

def isLineBreak (c : Char) : Bool := c == '\n' || c == '\r'

/-- What a value becomes as a field; a present optional becomes what it holds. -/
def entry : Value → Except Error Entry
  | .leaf l => if l.chars.any isLineBreak then .error (.inexpressible .multiLineText) else .ok (.line l.chars)
  | .enum table variant => (fun key => .line key.toList) <$> table.key variant
  | .record _ fields => .ok (.block fields)
  | .absent _ => .ok .nothing
  | .present _ v => entry v
  | v => .error (.inexpressible (.shapeInSettings v.kind))

def assignment (key : String) (text : List Char) : List Char := key.toList ++ '=' :: text

/-- The lines of the root's own leaves, and its records in order. -/
def split : List (String × Value) → Except Error (List (List Char) × List (String × List (String × Value)))
  | [] => .ok ([], [])
  | (key, v) :: rest => do
    match ← entry v with
    | .line text => return (fun r => (assignment key text :: r.1, r.2)) (← split rest)
    | .block fields => return (fun r => (r.1, (key, fields) :: r.2)) (← split rest)
    | .nothing => split rest

def blockLines (name : String) : List (String × Value) → Except Error (List (List Char))
  | [] => .ok []
  | (key, v) :: rest => do
    match ← entry v with
    | .line text => return assignment key text :: (← blockLines name rest)
    | .block _ => throw (.sectionNesting name key)
    | .nothing => blockLines name rest

def header (name : String) : List Char := '[' :: name.toList ++ [']']

/-- The lines of sections that follow others; a blank line stands before each of them, but not at the very start. -/
def blocks (atStart : Bool) : List (String × List (String × Value)) → Except Error (List (List Char))
  | [] => .ok []
  | (name, fields) :: rest => do
    let lines ← blockLines name fields
    let gap := if atStart then [] else [[]]
    return gap ++ header name :: lines ++ (← blocks false rest)

def lines : Value → Except Error (List (List Char))
  | .record _ fields => do
    let (leaves, sections) ← split fields
    return leaves ++ (← blocks leaves.isEmpty sections)
  | _ => .error (.inexpressible .rootNotRecord)

/-- The settings of a record, each line with a line feed behind it. -/
def render (v : Value) : Except Error String := do
  return String.ofList ((← lines v).flatMap (· ++ ['\n']))

end Settings
end AssetRecords
