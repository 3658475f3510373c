import Relink.Path.Posix
import Relink.Path.Windows

namespace Relink

inductive Flavour
  | posix
  | windows
  deriving DecidableEq

namespace Flavour

def join : Flavour → Text → Text → Text
  | .posix => Path.Posix.join
  | .windows => Path.Windows.join

def normalize : Flavour → Text → Text
  | .posix => Path.Posix.normalize
  | .windows => Path.Windows.normalize

def absolute : Flavour → Text → Text → Text
  | .posix => Path.Posix.absolute
  | .windows => Path.Windows.absolute

def relative? : Flavour → Text → Text → Text → Option Text
  | .posix => Path.Posix.relative?
  | .windows => Path.Windows.relative?

def dirname : Flavour → Text → Text
  | .posix => Path.Posix.dirname
  | .windows => Path.Windows.dirname

def splitExtension : Flavour → Text → Text × Text
  | .posix => Path.Posix.splitExtension
  | .windows => Path.Windows.splitExtension

def forwardSlashes : Flavour → Text → Text
  | .posix, path => path
  | .windows, path => path.map fun (c : CodePoint) => if c == '\\' then '/' else c

end Flavour

end Relink
