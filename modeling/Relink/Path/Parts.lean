import Relink.Path.Posix

/-!
A path taken apart into its root and its names. Empty names and single dots carry nothing and are
dropped; double dots stay, since what they lead to depends on links.
-/

namespace Relink.Path

structure Parts where
  root : Text
  names : List Text
  deriving DecidableEq

namespace Parts

def ofText (path : Text) : Parts where
  root := Posix.root path
  names := (Posix.components path).filter fun name => name ≠ [] && name ≠ [.char '.']

def toText (path : Parts) : Text :=
  let text := path.root ++ Text.joinWith ['/'] path.names
  if text = [] then ['.'] else text

def append (path more : Parts) : Parts :=
  if more.root = [] then ⟨path.root, path.names ++ more.names⟩ else more

def parent (path : Parts) : Parts := ⟨path.root, path.names.dropLast⟩

def name (path : Parts) : Text := path.names.getLast?.getD []

/-- The last dot of the name and what follows it; a dot at either end does not count. -/
def suffix (path : Parts) : Text :=
  match path.name.splitAfterLast (· == '.') with
  | ([], _) => []
  | (stem, extension) =>
    if stem.length = 1 ∨ extension = [] then [] else '.' :: extension

def withSuffix? (path : Parts) (suffix : Text) : Option Parts :=
  path.names.getLast?.map fun name =>
    let stem := name.take (name.length - path.suffix.length)
    ⟨path.root, path.names.dropLast ++ [stem ++ suffix]⟩

theorem suffix_eq_nil {path : Parts} (h : path.names = []) : path.suffix = [] := by
  simp [suffix, name, h, Text.splitAfterLast]

theorem withSuffix?_eq_none_iff {path : Parts} {suffix : Text} :
    path.withSuffix? suffix = none ↔ path.names = [] := by
  simp [withSuffix?]

end Parts

end Relink.Path
