import Relink.Config
import Relink.Json.Relaxed
import Relink.Path.Parts
import Relink.Storage.Disk

namespace Relink.Config

inductive Stop
  | fault (fault : Fault)
  | undecodable (path : Text) (malformed : Utf8.Malformed)
  | nullBase (path : Text)
  | nameless (path : Text)
  | endlessLinks (path : Text)
  | unusableName (path : Text)
  | unencodable (path : Text) (unencodable : Utf8.Unencodable)
  | exhausted (path : Text)
  deriving DecidableEq

/-- One file of a chain, the base of its options made absolute. -/
structure File where
  path : Path.Parts
  options : Fields Json
  parent? : Option Path.Parts

def readObject (disk : Disk) (path : Path.Parts) : Except Stop Json :=
  let shown := path.toText
  match disk.readText shown with
  | .error (.fault fault) =>
    match fault.kind with
    | .unusableName => .error (.unusableName shown)
    | .unencodable unencodable => .error (.unencodable shown unencodable)
    | _ => .error (.fault (.unreadable shown fault))
  | .error (.malformed malformed) => .error (.undecodable shown malformed)
  | .ok text =>
    match Json.parse (Json.Relaxed.toStrict text) with
    | .error failure => .error (.fault (.malformed shown failure))
    | .ok (.object fields) => .ok (.object fields)
    | .ok _ => .error (.fault (.notObject shown))

def settleBase (path : Path.Parts) (options : Fields Json) : Except Stop (Fields Json) :=
  match options.get? "baseUrl" with
  | none => .ok options
  | some (.string url) =>
    .ok (options.put "baseUrl"
      (.string (Path.Posix.normalize (Path.Posix.join path.parent.toText url))))
  | some _ => .error (.nullBase path.toText)

def parentOf (path : Path.Parts) : Option Json → Except Stop (Option Path.Parts)
  | none => .ok none
  | some (.string text) =>
    if text = [] then .ok none
    else
      let parent := path.parent.append (.ofText text)
      if parent.suffix ≠ [] then .ok (some parent)
      else
        match parent.withSuffix? ".json" with
        | some parent => .ok (some parent)
        | none => .error (.nameless parent.toText)
  | some value =>
    if value.isGiven then .error (.fault (.parentNotText path.toText)) else .ok none

def File.read (disk : Disk) (path : Path.Parts) : Except Stop File := do
  let contents ← readObject disk path
  let options := (contents.field? "compilerOptions").getD (.object [])
  let options ← (check path.toText options).mapError .fault
  let options ← settleBase path options
  return { path, options, parent? := ← parentOf path (contents.field? "extends") }

/-- The path with its links resolved, by which a file is known again. -/
def identity (disk : Disk) (path : Path.Parts) : Except Stop Text :=
  match (Path.Posix.components path.toText).findSome? Disk.obstacle? with
  | some (.unencodable unencodable) => .error (.unencodable path.toText unencodable)
  | some _ => .error (.unusableName path.toText)
  | none =>
    let real := disk.realPath path.toText
    match disk.locate real with
    | .error .tooManyLinks => .error (.endlessLinks real)
    | _ => .ok real

/-- The files from a path on, each extending the next, none with an identity that was seen before.
Each is read inside the one before it, which takes some of the `room`. -/
def chainFrom (disk : Disk) : Nat → List Text → Path.Parts → Except Stop (List File)
  | 0, _, path => .error (.exhausted path.toText)
  | room + 1, seen, path => do
    let real ← identity disk path
    if real ∈ seen then throw (.fault (.circular path.toText))
    let file ← File.read disk path
    match file.parent? with
    | none => return [file]
    | some parent => return file :: (← chainFrom disk room (real :: seen) parent)

def merged (files : List File) : Fields Json :=
  files.foldr (fun file older => Fields.merge older file.options) []

def rootPath (disk : Disk) (path : Text) : Path.Parts := .ofText (disk.absolute path)

def loadWithin (room : Nat) (disk : Disk) (path : Text) : Except Stop Config := do
  let path := rootPath disk path
  return ofOptions (merged (← chainFrom disk room [] path)) path.parent.toText

/-- Every file that is read has an identity of its own, so there are no more of them than files; one
read more may fail. With that much room no load is exhausted. -/
def load (disk : Disk) (path : Text) : Except Stop Config :=
  loadWithin (disk.files.length + 1) disk path

def loadLog (disk : Disk) (path : Text) (config : Config) : Log :=
  [⟨.debug, .config, "loaded " ++ (rootPath disk path).toText ++ " (baseUrl=" ++
    config.baseUrl.getD "None" ++ ")"⟩]

end Relink.Config
