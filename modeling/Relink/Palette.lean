import Relink.Fields

namespace Relink

structure Palette where
  enabled : Bool
  deriving DecidableEq

namespace Palette

def isSet (environment : Fields Text) (name : Text) : Bool :=
  (environment.get? name).any (!·.isEmpty)

def detect (environment : Fields Text) (onTerminal : Bool) : Palette where
  enabled :=
    if isSet environment "NO_COLOR" then false
    else if isSet environment "FORCE_COLOR" then true
    else onTerminal && environment.get? "TERM" != some "dumb"

def choose (noColor : Bool) (environment : Fields Text) (onTerminal : Bool) : Palette :=
  if noColor then ⟨false⟩ else detect environment onTerminal

def paint (palette : Palette) (codes : List Nat) (text : Text) : Text :=
  let escape (code : Nat) : Text := "\x1b[" ++ Text.ofNat code ++ "m"
  if palette.enabled then codes.flatMap escape ++ text ++ escape 0 else text

def error (palette : Palette) : Text → Text := palette.paint [1, 31]

def warning (palette : Palette) : Text → Text := palette.paint [33]

def success (palette : Palette) : Text → Text := palette.paint [1, 32]

def path (palette : Palette) : Text → Text := palette.paint [36]

def dim (palette : Palette) : Text → Text := palette.paint [2]

end Palette

end Relink
