import Relink.Path.Posix
import Relink.Storage.Basic
import Relink.Text.Lines

/-!
A file tree with symbolic links, as a value. Nodes are kept by their names from the root; the
parents of a node are directories.
-/

namespace Relink

inductive Disk.Node
  | directory
  | file (contents : Bytes)
  | link (target : Text)
  deriving DecidableEq

structure Disk where
  nodes : List (List Text × Disk.Node)
  here : List Text

namespace Disk

def lookup (disk : Disk) (names : List Text) : Option Node :=
  if names = [] then some .directory else disk.nodes.lookup names

def put (disk : Disk) (names : List Text) (node : Node) : Disk :=
  { disk with nodes := disk.nodes.filter (·.1 ≠ names) ++ [(names, node)] }

def pathOf (names : List Text) : Text := '/' :: Text.joinWith ['/'] names

def workingDirectory (disk : Disk) : Text := pathOf disk.here

def absolute (disk : Disk) (path : Text) : Text := Path.Posix.absolute disk.workingDirectory path

/-- Where a walk stops: at its end, or in front of a link, with the names still to go from where the
link leads. -/
inductive Halt
  | done (names : List Text) (node : Option Node)
  | link (start : List Text) (rest : List Text)
  deriving DecidableEq

def maxNameBytes : Nat := 255

def maxPathBytes : Nat := 4095

def maxLinks : Nat := 40

def startOf (here : List Text) (path : Text) : List Text :=
  if Path.Posix.isAbsolute path then [] else here

def advance (disk : Disk) (start : List Text) : List Text → Except FaultKind Halt
  | [] => .ok (.done start (disk.lookup start))
  | name :: rest =>
    if disk.lookup start ≠ some .directory then .error .notDirectory
    else if name = [] ∨ name = [.char '.'] then disk.advance start rest
    else if name = [.char '.', .char '.'] then disk.advance start.dropLast rest
    else if maxNameBytes < name.pathSize then .error .nameTooLong
    else
      match disk.lookup (start ++ [name]) with
      | some (.link target) =>
        .ok (.link (startOf start target) (Path.Posix.components target ++ rest))
      | some _ => disk.advance (start ++ [name]) rest
      | none => if rest.all (· = []) then .ok (.done (start ++ [name]) none) else .error .notFound

def walk (disk : Disk) : Nat → List Text → List Text → Except FaultKind (List Text × Option Node)
  | links, start, names =>
    match disk.advance start names with
    | .error kind => .error kind
    | .ok (.done names node) => .ok (names, node)
    | .ok (.link start rest) =>
      match links with
      | 0 => .error .tooManyLinks
      | links + 1 => disk.walk links start rest

def obstacle? (path : Text) : Option FaultKind :=
  match path.pathSizes? with
  | .error unencodable => some (.unencodable unencodable)
  | .ok _ => if .char '\x00' ∈ path then some .unusableName else none

def locate (disk : Disk) (path : Text) : Except FaultKind (List Text × Option Node) :=
  match obstacle? path with
  | some kind => .error kind
  | none =>
    if path = [] then .error .notFound
    else if maxPathBytes < path.pathSize then .error .nameTooLong
    else disk.walk maxLinks (startOf disk.here path) (Path.Posix.components path)

def entryOf : Node → Entry
  | .directory => .directory
  | .file _ => .file
  | .link _ => .other

def stat (disk : Disk) (path : Text) : Option Entry :=
  match disk.locate path with
  | .ok (_, node) => node.map entryOf
  | .error _ => none

def isDirectory (disk : Disk) (path : Text) : Bool := (disk.stat path).any (·.isDirectory)

def readBytes (disk : Disk) (path : Text) : Except Fault Bytes :=
  match disk.locate path with
  | .ok (_, some (.file contents)) => .ok contents
  | .ok (_, some .directory) => .error (.at .isDirectory path)
  | .ok (_, _) => .error (.at .notFound path)
  | .error kind => .error (.at kind path)

def readText (disk : Disk) (path : Text) : Except ReadFault Text :=
  match disk.readBytes path with
  | .error fault => .error (.fault fault)
  | .ok contents =>
    match Utf8.decode contents with
    | .error malformed => .error (.malformed malformed)
    | .ok text => .ok (text.unifyLineEnds.map .char)

def storage (disk : Disk) : Storage := ⟨fun path => .ok (disk.stat path), disk.readText⟩

/-- Follows links as far as they lead. A link met again while it is being followed stops the
resolution: from there on names are only added. Nesting deeper than the number of links is such a
meeting. -/
def follow (disk : Disk) : Nat → List Text → List Text → List Text × Bool
  | depth, start, names =>
    names.foldl (fun (reached, whole) (name : Text) =>
      if !whole then (reached ++ [name], false)
      else if name = [] ∨ name = [.char '.'] then (reached, true)
      else if name = [.char '.', .char '.'] then (reached.dropLast, true)
      else
        match disk.lookup (reached ++ [name]) with
        | some (.link target) =>
          match depth with
          | depth + 1 => disk.follow depth (startOf reached target) (Path.Posix.components target)
          | 0 => (reached ++ [name], false)
        | _ => (reached ++ [name], true)) (start, true)

def linkCount (disk : Disk) : Nat :=
  disk.nodes.countP fun
    | (_, .link _) => true
    | _ => false

def realPath (disk : Disk) (path : Text) : Text :=
  let (names, _) :=
    disk.follow disk.linkCount (startOf disk.here path) (Path.Posix.components path)
  pathOf (Path.collapse true names)

def newPlace (disk : Disk) (path : Text) : Except FaultKind (List Text × Text) := do
  if let some kind := obstacle? path then throw kind
  if maxPathBytes < path.pathSize then throw .nameTooLong
  let names := (Path.Posix.components path).filter (· ≠ [])
  match names.getLast? with
  | none => throw (if path = [] then .notFound else .alreadyExists)
  | some name =>
    match ← disk.walk maxLinks (startOf disk.here path) names.dropLast with
    | (parent, some .directory) =>
      if name = [.char '.'] ∨ name = [.char '.', .char '.'] then throw .alreadyExists
      if maxNameBytes < Text.pathSize name then throw .nameTooLong
      return (parent, name)
    | (_, some _) => throw .notDirectory
    | (_, none) => throw .notFound

def makeDirectory (disk : Disk) (path : Text) : Except FaultKind Disk := do
  let (parent, name) ← disk.newPlace path
  match disk.lookup (parent ++ [name]) with
  | some _ => throw .alreadyExists
  | none => return disk.put (parent ++ [name]) .directory

/-- A path that ends with a slash, all links followed, leads to no file, and none is made there. -/
def writeBytes (disk : Disk) (path : Text) (contents : Bytes) : Except Fault Disk :=
  match disk.locate path with
  | .error kind => .error (.at kind path)
  | .ok (_, some .directory) => .error (.at .isDirectory path)
  | .ok (names, _) =>
    let written := disk.put names (.file contents)
    if written.stat path = some .file then .ok written else .error (.at .isDirectory path)

def add (disk : Disk) (path : Text) (node : Node) : Disk :=
  let names := (Path.Posix.components path).filter (· ≠ [])
  let above := (List.range names.length).map names.take
  let disk := above.foldl (fun disk parent =>
    if (disk.lookup parent).isSome then disk else disk.put parent .directory) disk
  if names = [] then disk else disk.put names node

def empty : Disk := ⟨[], []⟩

def enter (disk : Disk) (path : Text) : Disk :=
  match disk.locate path with
  | .ok (names, some .directory) => { disk with here := names }
  | _ => disk

def files (disk : Disk) : List (List Text × Bytes) :=
  disk.nodes.filterMap fun
    | (names, .file contents) => some (names, contents)
    | _ => none

def changesFrom (disk before : Disk) : List (Text × Bytes) :=
  (disk.files.filter fun (names, contents) => before.lookup names ≠ some (.file contents)).map
    fun (names, contents) => (pathOf names, contents)

end Disk

end Relink
