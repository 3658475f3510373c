import Relink.Extension

namespace Relink.Command

inductive Flag
  | help
  | version
  | project
  | noColor
  | verbose
  | quiet
  | extension
  | outDir
  | strict
  deriving DecidableEq

namespace Flag

def names : Flag → List Text
  | .help => ["-h", "--help"]
  | .version => ["-V", "--version"]
  | .project => ["-p", "--project"]
  | .noColor => ["--no-color"]
  | .verbose => ["-v", "--verbose"]
  | .quiet => ["-q", "--quiet"]
  | .extension => ["-e", "--ext"]
  | .outDir => ["-o", "--out-dir"]
  | .strict => ["--strict"]

def takesValue : Flag → Bool
  | .project | .extension | .outDir => true
  | _ => false

def choices? : Flag → Option (List Text)
  | .extension => some (Extension.all.map (·.text))
  | _ => none

def rival? : Flag → Option Flag
  | .verbose => some .quiet
  | .quiet => some .verbose
  | _ => none

def shown (flag : Flag) : Text := Text.joinWith "/" flag.names

end Flag

inductive Scope
  | program
  | convert
  | aliases
  deriving DecidableEq

namespace Scope

def commands : List Scope := [.convert, .aliases]

def word : Scope → Text
  | .program => "tsrewrite"
  | .convert => "convert"
  | .aliases => "aliases"

def title : Scope → Text
  | .program => word .program
  | scope => word .program ++ " " ++ scope.word

def flags : Scope → List Flag
  | .program => [.help, .version]
  | .convert =>
    [.help, .project, .noColor, .verbose, .quiet, .extension, .outDir, .strict]
  | .aliases => [.help, .project, .noColor, .verbose, .quiet]

def spellings (scope : Scope) : List (Text × Flag) :=
  scope.flags.flatMap fun flag => flag.names.map (·, flag)

end Scope

end Relink.Command
