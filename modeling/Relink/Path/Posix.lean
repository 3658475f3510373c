import Relink.Path.Component

namespace Relink.Path.Posix

def isSeparator (c : CodePoint) : Bool := c == '/'

def isAbsolute (path : Text) : Bool := path.head? == some (.char '/')

def join (path more : Text) : Text :=
  if isAbsolute more then more
  else if path = [] ∨ path.getLast? = some (.char '/') then path ++ more
  else path ++ .char '/' :: more

/-- The leading slashes that count: exactly two stay two, otherwise one stands for all. -/
def root : Text → Text
  | '/' :: '/' :: '/' :: _ => ['/']
  | '/' :: '/' :: _ => ['/', '/']
  | '/' :: _ => ['/']
  | _ => []

def components (path : Text) : List Text := path.splitOn '/'

def normalize (path : Text) : Text :=
  let text := root path ++ Text.joinWith ['/'] (collapse (isAbsolute path) (components path))
  if text = [] then ['.'] else text

def absolute (workingDirectory path : Text) : Text :=
  normalize (if isAbsolute path then path else join workingDirectory path)

def relative? (workingDirectory target start : Text) : Option Text :=
  let names (path : Text) := (components (absolute workingDirectory path)).filter (· ≠ [])
  if target = [] then none
  else
    match steps (· = ·) (names start) (names target) with
    | [] => some ['.']
    | parts => some (Text.joinWith ['/'] parts)

def dirname (path : Text) : Text :=
  let head := (path.splitAfterLast isSeparator).1
  if head.all isSeparator then head else head.trimRight isSeparator

def basename (path : Text) : Text := (path.splitAfterLast isSeparator).2

def splitExtension (path : Text) : Text × Text := Path.splitExtension isSeparator path

end Relink.Path.Posix
