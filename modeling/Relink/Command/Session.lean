import Relink.Command.Request
import Relink.Command.Usage
import Relink.Conversion
import Relink.Palette
import Relink.Storage.Directories

/-!
Carrying out what a command line asks for. Files are read from and written to a file tree; what is
printed is kept beside it.
-/

namespace Relink.Command

structure Surroundings where
  environment : Fields Text
  outputOnTerminal : Bool
  errorsOnTerminal : Bool

/-- A fault that the command line says nothing of. -/
inductive Escape
  | project (fault : Project.Fault)
  | conversion (fault : Conversion.Fault)
  | storage (fault : Relink.Fault)
  | output (unencodable : Utf8.Unencodable)

def Escape.message : Escape → Text
  | .storage fault | .conversion (.unreadable fault) => fault.message
  | .conversion (.source (.malformed malformed)) | .conversion (.edit (.malformed malformed)) =>
    malformed.message
  | .conversion (.edit (.overlap start)) => Edit.overlapMessage start
  | .conversion (.edit (.unencodable unencodable)) | .output unencodable => unencodable.message
  | .conversion fault => fault.message?.getD []
  | .project (.config (.undecodable path malformed)) => path ++ ": " ++ malformed.message
  | .project (.config (.nullBase path)) => path ++ ": baseUrl is null"
  | .project (.config (.nameless path)) => path ++ ": extends a path without a name"
  | .project (.config (.endlessLinks path)) => path ++ ": endless links"
  | .project (.config (.unusableName path)) => path ++ ": no usable name"
  | .project (.config (.unencodable path unencodable)) => path ++ ": " ++ unencodable.message
  | .project (.config (.exhausted path)) => path ++ ": too many files extend each other"
  | .project (.aliases fault) => fault.message
  | .project fault => fault.message?.getD []

inductive Ending
  | exit (status : Nat)
  | escape (escape : Escape)

structure Session where
  disk : Disk
  output : Text
  errors : Text

structure Outcome where
  session : Session
  ending : Ending

namespace Session

def write (session : Session) (text : Text) : Session :=
  { session with output := session.output ++ text }

def complain (session : Session) (line : Text) : Session :=
  { session with errors := session.errors ++ line ++ "\n" }

def exit (session : Session) (status : Nat) : Outcome := ⟨session, .exit status⟩

def threshold (options : Options) : Level :=
  if options.verbose then .debug else if options.quiet then .error else .warning

def logLine (record : Record) : Text :=
  record.level.name ++ " " ++ record.channel.name ++ ": " ++ record.message

def report (session : Session) (options : Options) (log : Log) : Session :=
  (log.filter fun record => (threshold options).rank ≤ record.level.rank).foldl
    (fun session record => session.complain (logLine record)) session

def errorLine (palette : Palette) (message : Text) : Text :=
  palette.error "error:" ++ " " ++ message

def setting (session : Session) : Setting :=
  ⟨.posix, session.disk.storage, session.disk.workingDirectory⟩

/-- Where a converted file goes: below the directory for output as it lies below the project. A file
outside of the project goes there under its name alone. -/
def destination (workingDirectory outDir file projectDirectory : Text) : Path.Parts :=
  let absolute := Path.Posix.absolute workingDirectory file
  let relative :=
    (Path.Posix.relative? workingDirectory absolute projectDirectory).getD absolute
  let relative := if (".." : Text).isPrefixOf relative then Path.Posix.basename file else relative
  (Path.Parts.ofText outDir).append (.ofText relative)

def store (session : Session) (path : Path.Parts) (text : Chars) :
    Except Relink.Fault Session := do
  let disk ← session.disk.ensureDirectory path.parent
  return { session with disk := ← disk.writeBytes path.toText text.utf8 }

structure Tally where
  failed : Nat
  misses : Nat
  deriving DecidableEq

def deliver (session : Session) (options : Options) (project : Project) (file : Text)
    (text : Chars) : Except Relink.Fault Session :=
  match options.outDir with
  | none | some [] => .ok (session.write (text.map .char))
  | some outDir => do
    let path :=
      destination session.disk.workingDirectory outDir file project.config.directory
    let session ← session.store path text
    return session.report options [⟨.info, .command, file ++ " -> " ++ path.toText⟩]

def convertFileBy (grammar : Source.Grammar) (session : Session) (options : Options)
    (palette : Palette) (project : Project) (tally : Tally) (file : Text) :
    Session × Except Escape Tally :=
  let report :=
    { project with setting := session.setting }.convertBy grammar file .stored none
  let session := session.report options report.log
  match report.result with
  | .error fault =>
    match fault.message? with
    | some message =>
      (session.complain (errorLine palette message), .ok { tally with failed := tally.failed + 1 })
    | none => (session, .error (.conversion fault))
  | .ok conversion =>
    let tally := { tally with misses := tally.misses + conversion.misses.length }
    match session.deliver options project file conversion.text with
    | .ok session => (session, .ok tally)
    | .error fault => (session, .error (.storage fault))

def convertFilesBy (grammar : Source.Grammar) (options : Options) (palette : Palette)
    (project : Project) : Session → Tally → List Text → Session × Except Escape Tally
  | session, tally, [] => (session, .ok tally)
  | session, tally, file :: rest =>
    match session.convertFileBy grammar options palette project tally file with
    | (session, .ok tally) => convertFilesBy grammar options palette project session tally rest
    | (session, .error escape) => (session, .error escape)

def withProject (session : Session) (options : Options) (palette : Palette)
    (next : Session → Project → Outcome) : Outcome :=
  let origin := Project.Origin.file options.project
  let result :=
    Project.create session.setting session.disk origin (.string options.extension)
  let session := session.report options (Project.createLog session.disk origin)
  match result with
  | .ok project => next session project
  | .error fault =>
    match fault.message? with
    | some message => (session.complain (errorLine palette message)).exit 1
    | none => ⟨session, .escape (.project fault)⟩

def summary (misses : Nat) : Text := Text.ofNat misses ++ " specifier(s) could not be resolved"

def convertBy (grammar : Source.Grammar) (session : Session) (palette : Palette)
    (options : Options) : Outcome :=
  if 1 < options.files.length ∧ options.outDir.getD [] = [] then
    (session.complain (errorLine palette
      "--out-dir is required when converting several files")).exit 2
  else
    session.withProject options palette fun session project =>
      match convertFilesBy grammar options palette project session ⟨0, 0⟩ options.files with
      | (session, .error escape) => ⟨session, .escape escape⟩
      | (session, .ok tally) =>
        let session :=
          if tally.misses = 0 then session
          else session.complain (palette.warning (summary tally.misses))
        session.exit (if tally.failed ≠ 0 ∨ (options.strict ∧ tally.misses ≠ 0) then 1 else 0)

def aliasLines (palette : Palette) (table : AliasTable) : List Text :=
  match table.entries with
  | [] => [palette.dim "no aliases configured"]
  | entries =>
    entries.map fun entry => palette.success entry.stem ++ " -> " ++ palette.path entry.directory

def printLines : Session → List Text → Outcome
  | session, [] => session.exit 0
  | session, line :: rest =>
    match line.utf8? with
    | .ok _ => printLines (session.write (line ++ "\n")) rest
    | .error unencodable => ⟨session, .escape (.output unencodable)⟩

def aliases (session : Session) (palette : Palette) (options : Options) : Outcome :=
  session.withProject options palette fun session project =>
    session.printLines (aliasLines palette project.aliases)

end Session

def run (grammar : Source.Grammar) (surroundings : Surroundings) (disk : Disk)
    (arguments : List Text) : Outcome :=
  let session : Session := ⟨disk, [], []⟩
  let palette (options : Options) (onTerminal : Bool) : Palette :=
    .choose options.noColor surroundings.environment onTerminal
  let answer (request : Request) : Outcome :=
    match request with
    | .help scope => (session.write (help scope)).exit 0
    | .version => (session.write versionLine).exit 0
    | .convert options =>
      session.convertBy grammar (palette options surroundings.errorsOnTerminal) options
    | .aliases options =>
      session.aliases (palette options surroundings.outputOnTerminal) options
  match read arguments with
  | .ok request => answer request
  | .error (.request request) => answer request
  | .error (.fault scope fault) =>
    ⟨⟨disk, [], usage scope ++ scope.title ++ ": error: " ++ fault.message ++ "\n"⟩, .exit 2⟩

end Relink.Command
