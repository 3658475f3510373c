import Relink.Alias
import Relink.Literal
import Relink.Resolution

namespace Relink

structure Setting where
  flavour : Flavour
  storage : Storage
  workingDirectory : Text

structure FileContext where
  file : Text
  directory : Text
  aliases : AliasTable
  extension : Extension

structure Miss where
  file : Text
  specifier : Text
  candidate : Text
  probed : List Text
  deriving DecidableEq

def Miss.message (miss : Miss) : Text :=
  miss.file ++ ": could not resolve '" ++ miss.specifier ++ "' (tried " ++ miss.candidate ++ ")"

def FileContext.of (setting : Setting) (path : Text) (aliases : AliasTable)
    (extension : Extension) : FileContext :=
  let file := setting.flavour.absolute setting.workingDirectory path
  { file, directory := setting.flavour.dirname file, aliases, extension }

namespace Specifier

inductive Kind
  | bare
  | relative
  | aliased
  deriving DecidableEq

def Kind.name : Kind → Text
  | .bare => "bare"
  | .relative => "relative"
  | .aliased => "aliased"

def classify : Text → Kind
  | '.' :: _ => .relative
  | '@' :: _ => .aliased
  | _ => .bare

def candidate? (setting : Setting) (context : FileContext) (specifier : Text) : Option Text :=
  match classify specifier with
  | .bare => none
  | .aliased =>
    (context.aliases.match? specifier).map fun (entry, rest) =>
      setting.flavour.normalize (entry.directory ++ rest)
  | .relative =>
    some (setting.flavour.normalize (setting.flavour.join context.directory specifier))

def dotted (path : Text) : Text :=
  if path = "." ∨ path = ".." ∨ ("./" : Text).isPrefixOf path ∨ ("../" : Text).isPrefixOf path then
    path
  else if ("/" : Text).isPrefixOf path then '.' :: path
  else "./" ++ path

/-- A path as a specifier seen from a directory. Where there is no way between the two, the path
itself with slashes for separators. -/
def relativeTo (setting : Setting) (target directory : Text) : Text :=
  match setting.flavour.relative? setting.workingDirectory target directory with
  | some path => dotted (setting.flavour.forwardSlashes path)
  | none => setting.flavour.forwardSlashes target

def relativeLog (setting : Setting) (target directory : Text) : Log :=
  match setting.flavour.relative? setting.workingDirectory target directory with
  | some _ => []
  | none =>
    [⟨.warning, .rewriter, "no relative path from " ++ directory ++ " to " ++ target⟩]

structure Target where
  specifier : Text
  candidate : Text
  resolution : Resolution
  deriving DecidableEq

def target? (setting : Setting) (context : FileContext) (raw : Text) : Option Target :=
  let specifier := Literal.unquote raw
  (candidate? setting context specifier).map fun candidate =>
    { specifier, candidate
      resolution :=
        Resolution.resolve setting.flavour setting.storage candidate context.extension }

def Target.emitted (setting : Setting) (context : FileContext) (target : Target) : Text :=
  relativeTo setting target.resolution.path context.directory

def rewrite (setting : Setting) (context : FileContext) (raw : Text) : Text :=
  match target? setting context raw with
  | none => raw
  | some target => Literal.quote [Literal.markOf raw] (target.emitted setting context)

def miss? (setting : Setting) (context : FileContext) (raw : Text) : Option Miss :=
  (target? setting context raw).bind fun target =>
    if target.resolution.found then none
    else some ⟨context.file, target.specifier, target.candidate, target.resolution.probed⟩

def record (setting : Setting) (context : FileContext) (misses : List Miss) (raw : Text) :
    List Miss :=
  misses ++ (miss? setting context raw).toList

def log (setting : Setting) (context : FileContext) (raw : Text) : Log :=
  match target? setting context raw with
  | none => []
  | some target =>
    target.resolution.log setting.storage ++
      relativeLog setting target.resolution.path context.directory ++
      [⟨.debug, .rewriter, context.file ++ ": " ++ target.specifier ++ " -> " ++
        target.emitted setting context⟩]

end Specifier

end Relink
