import Relink.Json.Display
import Relink.Json.Reader
import Relink.Log
import Relink.Path.Flavour
import Relink.Storage.Fault

namespace Relink

structure Config where
  target : Option Text
  baseUrl : Option Text
  paths : Fields Json
  directory : Text

namespace Config

inductive Fault
  | optionsNotObject (source : Text)
  | pathsNotObject (source : Text)
  | targetsNotTexts (key source : Text)
  | notText (name source : Text)
  | unreadable (path : Text) (fault : Relink.Fault)
  | malformed (path : Text) (failure : Json.Failure)
  | notObject (path : Text)
  | circular (path : Text)
  | parentNotText (path : Text)
  deriving DecidableEq

def Fault.message : Fault → Text
  | .optionsNotObject source =>
    "Config file parse fails: compilerOptions must be an object in " ++ source
  | .pathsNotObject source => "Config file parse fails: 'paths' must be an object in " ++ source
  | .targetsNotTexts key source =>
    "Config file parse fails: 'paths' entry " ++ key.quoted ++ " must be a list of strings in " ++
      source
  | .notText name source =>
    "Config file parse fails: '" ++ name ++ "' must be a string in " ++ source
  | .unreadable path fault => "Cannot read config file " ++ path ++ ": " ++ fault.message
  | .malformed path failure => "Config file parse fails: " ++ path ++ ": " ++ failure.message
  | .notObject path => "Config file parse fails: " ++ path ++ " must contain a JSON object"
  | .circular path => "Circular 'extends' in config file " ++ path
  | .parentNotText path => "Config file parse fails: 'extends' must be a string in " ++ path

def isTexts : Json → Bool
  | .array items => items.all fun item => item.asText?.isSome
  | _ => false

def checkPaths (source : Text) : Option Json → Except Fault Unit
  | none | some .null => .ok ()
  | some (.object entries) =>
    match entries.find? fun (_, targets) => !isTexts targets with
    | some (key, _) => .error (.targetsNotTexts key source)
    | none => .ok ()
  | some _ => .error (.pathsNotObject source)

def checkText (source name : Text) : Option Json → Except Fault Unit
  | none | some .null | some (.string _) => .ok ()
  | some _ => .error (.notText name source)

/-- The options, if each that counts has the right form. Null stands for an option that is not
set. -/
def check (source : Text) : Json → Except Fault (Fields Json)
  | .object options => do
    checkPaths source (Fields.get? options "paths")
    checkText source "baseUrl" (Fields.get? options "baseUrl")
    checkText source "target" (Fields.get? options "target")
    return options
  | _ => .error (.optionsNotObject source)

def ofOptions (options : Fields Json) (directory : Text) : Config where
  target := ((options.get? "target").getD (.string "latest")).asText?
  baseUrl := (options.get? "baseUrl").bind (·.asText?)
  paths :=
    match options.get? "paths" with
    | some (.object entries) => entries
    | _ => []
  directory := directory

def fromOptions (workingDirectory : Text) (options : Json) (directory : Text) :
    Except Fault Config := do
  let options ← check "<compilerOptions>" options
  return ofOptions options (Path.Posix.absolute workingDirectory directory)

def baseDirectory (flavour : Flavour) (config : Config) : Text :=
  match config.baseUrl with
  | none => config.directory
  | some url => flavour.normalize (flavour.join config.directory url)

end Config

end Relink
