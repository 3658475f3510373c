import Relink.Config.Chain
import Relink.Specifier

namespace Relink

structure Project where
  setting : Setting
  config : Config
  aliases : AliasTable
  extension : Extension

namespace Project

inductive Origin
  | file (path : Text)
  | options (options : Json) (directory : Text)
  | ready (config : Config)

/-- A text among the options' values is the path of a file. -/
def Origin.ofOptions (options : Json) (directory : Text) : Origin :=
  match options with
  | .string path => .file path
  | options => .options options directory

inductive Fault
  | config (stop : Config.Stop)
  | aliases (fault : Alias.Fault)
  | extension (value : Json)

def Fault.message? : Fault → Option Text
  | .config (.fault fault) => some fault.message
  | .config _ => none
  | .aliases (.notText _) => none
  | .aliases fault => some fault.message
  | .extension value => some (Extension.unsupported value)

def configure (disk : Disk) : Origin → Except Config.Stop Config
  | .file path => Config.load disk path
  | .options options directory =>
    (Config.fromOptions disk.workingDirectory options directory).mapError .fault
  | .ready config => .ok config

def create (setting : Setting) (disk : Disk) (origin : Origin) (extension : Json) :
    Except Fault Project := do
  let config ← (configure disk origin).mapError .config
  let aliases ← (AliasTable.build setting.flavour (config.baseDirectory setting.flavour)
    config.paths).mapError .aliases
  let some extension := Extension.parse? extension | throw (.extension extension)
  return { setting, config, aliases, extension }

def createLog (disk : Disk) (origin : Origin) : Log :=
  match configure disk origin with
  | .error _ => []
  | .ok config =>
    let loaded :=
      match origin with
      | .file path => Config.loadLog disk path config
      | _ => []
    loaded ++ [⟨.debug, .converter, "config dir: " ++ config.directory⟩]

def context (project : Project) (path : Text) (extension : Extension) : FileContext :=
  .of project.setting path project.aliases extension

end Project

end Relink
