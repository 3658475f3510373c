import Relink.Command.Session
import Relink.Source.Outline
import Std.Data.HashSet

/-!
The command line on the files of the machine. The directories that a request names are read once,
the run works on what was read, and what it has written is carried over at its end.
-/

namespace Relink.Command

def Request.directories (workingDirectory : Text) (request : Request) : List Text :=
  let around (path : Text) : Text :=
    Path.Posix.dirname (Path.Posix.absolute workingDirectory path)
  match request with
  | .convert options =>
    around options.project :: options.files.map around ++
      options.outDir.toList.map (Path.Posix.absolute workingDirectory)
  | .aliases options => [around options.project]
  | .help _ | .version => []

def examine (path : String) : IO (Disk.Node × List String) := do
  let place := (← IO.currentDir) / path
  match (← place.symlinkMetadata).type with
  | .dir => return (.directory, ((← place.readDir).map (·.path.toString)).toList)
  | .file => return (.file (← IO.FS.readBinFile place).toList, [])
  | .symlink =>
    let target := (← IO.FS.realPath place).toString
    return (.link target, [target])
  | .other => throw (.userError path)

def namesOf (path : String) : List Text :=
  (Path.Posix.components path).filter (· ≠ [])

/-- Reads paths, all that is below them, and all that links there lead to. What cannot be read is
left out. -/
partial def survey (seen : Std.HashSet String) (nodes : List (List Text × Disk.Node)) :
    List String → IO (List (List Text × Disk.Node))
  | [] => return nodes
  | path :: rest => do
    if seen.contains path then survey seen nodes rest
    else
      match ← (examine path).toBaseIO with
      | .ok (node, more) =>
        survey (seen.insert path) ((namesOf path, node) :: nodes) (more ++ rest)
      | .error _ => survey (seen.insert path) nodes rest

def readDisk (workingDirectory : String) (directories : List String) : IO Disk := do
  let nodes ← survey ∅ [] directories
  let above := (workingDirectory :: directories).flatMap fun path =>
    let names := namesOf path
    (List.range (names.length + 1)).map fun count => (names.take count, Disk.Node.directory)
  return ⟨nodes ++ above, namesOf workingDirectory⟩

def writeChanges (before after : Disk) : IO Unit :=
  for (path, contents) in after.changesFrom before do
    IO.FS.createDirAll (String.ofList (Path.Posix.dirname path).shown)
    IO.FS.writeBinFile (String.ofList path.shown) ⟨contents.toArray⟩

def surroundings : IO Surroundings := do
  let mut environment : Fields Text := []
  for name in ["NO_COLOR", "FORCE_COLOR", "TERM"] do
    if let some value ← IO.getEnv name then
      environment := environment.put name value
  return ⟨environment, ← (← IO.getStdout).isTty, ← (← IO.getStderr).isTty⟩

def perform (arguments : List String) : IO UInt32 := do
  let arguments := arguments.map fun (argument : String) => (argument : Text)
  let workingDirectory := (← IO.currentDir).toString
  let directories :=
    match read arguments with
    | .ok request | .error (.request request) => request.directories workingDirectory
    | .error (.fault ..) => []
  let disk ← readDisk workingDirectory (directories.map (String.ofList ·.shown))
  let outcome := run Source.outline (← surroundings) disk arguments
  writeChanges disk outcome.session.disk
  IO.print (String.ofList outcome.session.output.shown)
  IO.eprint (String.ofList outcome.session.errors.shown)
  match outcome.ending with
  | .exit status => return status.toUInt32
  | .escape escape =>
    IO.eprintln (String.ofList escape.message.shown)
    return 1

end Relink.Command

def main (arguments : List String) : IO UInt32 := Relink.Command.perform arguments
