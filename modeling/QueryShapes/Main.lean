import QueryShapes.Output.Disk
import QueryShapes.Run

namespace QueryShapes.CommandLine

/-- The text of a file, or what the system says when it cannot be read. -/
def readFileText (path : String) : IO (Except String String) := do
  try
    return readText "the file is not UTF-8 text" (some (← IO.FS.readBinFile path))
  catch e =>
    return .error (toString e)

def writeFiles (root : String) (files : List (String × String)) : IO Unit := do
  for (path, text) in files do
    let target := root ++ "/" ++ path
    IO.FS.createDirAll (String.intercalate "/" (segmentsOf target).dropLast)
    IO.FS.writeFile target text

/-- Generates from a snapshot file with the default configuration. -/
def generate (path root : String) : IO UInt32 := do
  let source := Source.ofDocument path (← readFileText path)
  match Config.run {} source FileMap.sink {} with
  | (.error e, _) =>
    IO.eprintln e.message
    return 1
  | (.ok summary, files) =>
    writeFiles root files.entries
    IO.println ("Wrote " ++ toString summary.units ++ " units to " ++ root ++ " (" ++ toString summary.enums ++
      " enums, " ++ toString summary.objects ++ " object types)")
    if summary.ambiguities > 0 then
      IO.println (toString summary.ambiguities ++ " ambiguous cast pairs")
    return 0

end QueryShapes.CommandLine

def main (args : List String) : IO UInt32 := do
  match args with
  | [] =>
    IO.eprintln "usage: query-shapes <snapshot.json> [output-dir]"
    return 1
  | path :: rest => QueryShapes.CommandLine.generate path (rest.headD "dbschema/edgeql")
