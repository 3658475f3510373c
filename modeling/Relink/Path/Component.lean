import Relink.Text

namespace Relink.Path

/-- Adds a component to a list kept in reverse. Empty components and single dots vanish, and a
double dot takes back its predecessor; at a root there is none to take. -/
def push (rooted : Bool) (components : List Text) (component : Text) : List Text :=
  if component = [] ∨ component = [.char '.'] then components
  else if component = [.char '.', .char '.'] then
    match components with
    | [] => if rooted then [] else [component]
    | last :: rest => if last = [.char '.', .char '.'] then component :: components else rest
  else component :: components

def collapse (rooted : Bool) (components : List Text) : List Text :=
  (components.foldl (push rooted) []).reverse

def dropShared (same : Text → Text → Bool) : List Text → List Text → List Text × List Text
  | a :: as, b :: bs => if same a b then dropShared same as bs else (a :: as, b :: bs)
  | as, bs => (as, bs)

def steps (same : Text → Text → Bool) (start target : List Text) : List Text :=
  let (up, down) := dropShared same start target
  up.map (fun _ => [.char '.', .char '.']) ++ down

/-- Splits a path in front of the last dot of its last component; dots at the front of the component
do not count. -/
def splitExtension (isSeparator : CodePoint → Bool) (path : Text) : Text × Text :=
  let (directory, name) := path.splitAfterLast isSeparator
  match name.splitAfterLast (· == '.') with
  | ([], _) => (path, [])
  | (stem, extension) =>
    if stem.all (· == '.') then (path, [])
    else (directory ++ stem.dropLast, '.' :: extension)

end Relink.Path
