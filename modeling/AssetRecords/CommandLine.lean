import AssetRecords.Asset.Catalogue
import AssetRecords.DebugText.Writer
import AssetRecords.Json.Window
/-!
# The command line

What the arguments ask for, and what is answered once the file that they name is open.
-/
namespace AssetRecords
namespace CommandLine

def programName : String := "asset-schema-cli"

def version : String := "0.1.0"

/-- When the program was built. -/
def buildStamp : String := "2000-01-02 03:04:05 UTC"

inductive View where
  | summary
  | json (compact : Bool)
  | text
  deriving DecidableEq, Repr

inductive Command where
  | help
  | version
  | unknown (name : String)
  | missingFile (usage : String)
  | view (how : View) (path : String)
  deriving DecidableEq, Repr

/-- What is printed, what is complained of line by line, and the exit code. -/
structure Outcome where
  output : String := ""
  complaints : List String := []
  code : UInt32 := 0
  deriving DecidableEq, Repr

/-- The last part of a path, unless it leads upward. -/
def fileName? (path : String) : Option (List Char) :=
  match ((path.toList.splitOn '/').filter fun part => part ≠ [] ∧ part ≠ ['.']).getLast? with
  | none | some ['.', '.'] => none
  | part => part

/-- What follows the last point of a file name, if something stands before that point. -/
def extension? (path : String) : Option (List Char) := do
  let name ← fileName? path
  let extension := (name.reverse.takeWhile (· != '.')).reverse
  if extension.length + 1 < name.length then some extension else none

/-- An argument that only says how much is logged. -/
def isLogFlag (arg : String) : Bool :=
  ["-v", "--verbose", "-vv", "--trace", "-q", "--quiet"].contains arg

/-- What the arguments ask for.  A path in place of a command asks for a summary. -/
def Command.ofArgs (args : List String) : Command :=
  match args.filter (!isLogFlag ·) with
  | [] => .help
  | name :: rest =>
    let view (how : View) (usage : String) : Command :=
      match rest with
      | [] => .missingFile usage
      | path :: _ => .view how path
    if ["info", "i"].contains name then view .summary "info <file>"
    else if ["json", "j"].contains name then
      view (.json (rest.any fun arg => arg == "--compact" || arg == "-c")) "json <file> [--compact]"
    else if ["text", "t"].contains name then view .text "text <file>"
    else if ["version", "V", "--version"].contains name then .version
    else if ["help", "h", "-h", "--help"].contains name then .help
    else if (extension? name).isSome then .view .summary name
    else .unknown name

def Command.path? : Command → Option String
  | view _ path => some path
  | _ => none

def helpText : String := "asset-schema-cli - game asset inspector

USAGE:
    asset-schema-cli [OPTIONS] <COMMAND> [ARGS]

COMMANDS:
    i, info   <file>              Show a summary of the asset
    j, json   <file> [--compact]  Dump the decoded asset as JSON
    t, text   <file>              Dump the decoded asset as debug text
    V, version                    Show version and build date
    h, help                       Show this help

OPTIONS:
    -v, --verbose    Show debug output
    -vv, --trace     Show trace output (very verbose)
    -q, --quiet      Only show errors

FORMATS:
    .arm  armature      .lvl  level
    .plh  placeholder   .png  RGB/RGBA image

NOTES:
    - Passing a file directly is equivalent to 'info'
    - RUST_LOG overrides the verbosity flags
"

def unlines (lines : List String) : String := String.join (lines.map (· ++ "\n"))

def actionLine (a : Action) : String :=
  let count := a.frames.length
  s!"    {a.name} - {count} frames" ++ (if a.positions.isSome then ", positions" else "") ++
    (if a.orientations.isSome then ", orientations" else "")

def meshLine (m : Mesh) : String :=
  s!"    {m.name} - {m.vertexCount} vertices, {m.triangleCount} triangles" ++
    (if m.uvs.isSome then ", uvs" else "")

def summaryLines : Asset → List String
  | .armature a =>
    let joints := a.joints.length
    let roots := a.rootCount.toNat
    let actions := a.actions.length
    [s!"Armature: {a.name}", s!"  Joints:  {joints} ({roots} roots)", s!"  Actions: {actions}"] ++
      a.actions.map actionLine
  | .level l =>
    let meshes := l.meshes.length
    [s!"Level: {l.name}", s!"  Meshes: {meshes}"] ++ l.meshes.map meshLine
  | .placeholder p =>
    let vertices := p.vertices.length / 3
    let triangles := p.indices.length / 3
    [s!"Placeholder: {p.name}", s!"  Vertices:  {vertices}", s!"  Triangles: {triangles}"]
  | .image i =>
    let color := match i.color with
      | .rgb => "Rgb"
      | .rgba => "Rgba"
    [s!"Image: {i.width}x{i.height}", s!"  Color:     {color}", s!"  Bit depth: {i.bitDepth}",
      s!"  Channels:  {i.channels}"]

/-- The asset of a file, whose kind its extension tells in any letter case. -/
def loadAsset (content : Content) : Except Error Asset :=
  let extension := String.ofList ((extension? content.path).getD [] |>.map Char.toLower)
  match Asset.Kind.ofExtension? extension with
  | some kind => Asset.read {} content kind
  | none => .error (.inexpressible (.extension extension))

def View.render (path : String) (asset : Asset) : View → Except Error String
  | summary => .ok (unlines (s!"File: {path}" :: summaryLines asset))
  | json compact => (· ++ "\n") <$> Json.render { pretty := !compact } asset.toValue
  | text => (· ++ "\n") <$> DebugText.render asset.toValue

/-- What a command answers, given the file that it reads or why that file cannot be had. -/
def Command.run (file : Except Error Content) : Command → Outcome
  | help => { output := helpText }
  | version => { output := unlines [programName ++ " " ++ CommandLine.version, "built " ++ buildStamp] }
  | unknown name =>
    { complaints := [s!"Unknown command: {name}", s!"Run '{programName} help' for usage."], code := 1 }
  | missingFile usage =>
    { complaints := ["Error: missing file argument", s!"Usage: {programName} {usage}"], code := 1 }
  | view how path =>
    match do how.render path (← loadAsset (← file)) with
    | .ok output => { output }
    | .error e => { complaints := [s!"Error: {e.message}"], code := 1 }

end CommandLine
end AssetRecords
