import Relink.Storage.Fault

namespace Relink

structure Entry where
  isDirectory : Bool
  isFile : Bool
  deriving DecidableEq

namespace Entry

def directory : Entry := ⟨true, false⟩

def file : Entry := ⟨false, true⟩

def other : Entry := ⟨false, false⟩

end Entry

/-- What a conversion asks of the files around it: what stands at a path, and the text of a file. -/
structure Storage where
  stat : Text → Except Fault (Option Entry)
  read : Text → Except ReadFault Text

namespace Storage

def entry? (storage : Storage) (path : Text) : Option Entry := (storage.stat path).toOption.join

def isDirectory (storage : Storage) (path : Text) : Bool :=
  (storage.entry? path).any (·.isDirectory)

def isFile (storage : Storage) (path : Text) : Bool := (storage.entry? path).any (·.isFile)

end Storage

end Relink
