import Relink.Fields
import Relink.Storage.Basic

namespace Relink

structure Memory where
  files : Fields Text
  directories : List Text
  others : List Text
  forbidden : List Text

namespace Memory

def stat (memory : Memory) (path : Text) : Except Fault (Option Entry) :=
  if path ∈ memory.forbidden then .error ⟨.permission, path⟩
  else if path ∈ memory.directories then .ok (some .directory)
  else if (memory.files.get? path).isSome then .ok (some .file)
  else if path ∈ memory.others then .ok (some .other)
  else .ok none

def read (memory : Memory) (path : Text) : Except ReadFault Text :=
  if path ∈ memory.forbidden then .error (.fault ⟨.permission, path⟩)
  else
    match memory.files.get? path with
    | some text => .ok text
    | none => .error (.fault ⟨.notFound, path⟩)

def storage (memory : Memory) : Storage := ⟨memory.stat, memory.read⟩

end Memory

end Relink
