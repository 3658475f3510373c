import Relink.Json.Display
import Relink.Text.Blank
import Relink.Text.Lowercase

namespace Relink

inductive Extension
  | js
  | mjs
  | cjs
  deriving DecidableEq

namespace Extension

def all : List Extension := [.js, .mjs, .cjs]

def text : Extension → Text
  | .js => ".js"
  | .mjs => ".mjs"
  | .cjs => ".cjs"

def ofText? (text : Text) : Option Extension := all.find? (·.text = text)

def parse? : Json → Option Extension
  | .string text =>
    let text := text.trimBlanks.lower
    ofText? (if text.head? = some (.char '.') then text else '.' :: text)
  | _ => none

def unsupported (value : Json) : Text :=
  "Unsupported target extension " ++ value.display ++ " (expected one of " ++
    Text.joinWith ", " (all.map text) ++ ")"

end Extension

end Relink
