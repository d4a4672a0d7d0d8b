import AssetRecords.CommandLine

open AssetRecords CommandLine

def openFile (path : String) : IO (Except Error Content) := do
  try
    let data ← IO.FS.readBinFile path
    return .ok ⟨path, data.toList⟩
  catch
    | .noFileOrDirectory .. => return .error (.fileNotFound path)
    | _ => return .error .file

def main (args : List String) : IO UInt32 := do
  let command := Command.ofArgs args
  let file ← match command.path? with
    | some path => openFile path
    | none => pure (.error .file)
  let outcome := command.run file
  IO.print outcome.output
  for line in outcome.complaints do IO.eprintln line
  return outcome.code
