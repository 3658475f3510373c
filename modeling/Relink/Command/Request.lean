import Relink.Command.Word
import Relink.Text.Quoted

namespace Relink.Command

structure Options where
  project : Text
  noColor : Bool
  verbose : Bool
  quiet : Bool
  extension : Text
  outDir : Option Text
  strict : Bool
  files : List Text
  deriving DecidableEq

def Options.initial : Options where
  project := "tsconfig.json"
  noColor := false
  verbose := false
  quiet := false
  extension := Extension.js.text
  outDir := none
  strict := false
  files := []

inductive Request
  | help (scope : Scope)
  | version
  | convert (options : Options)
  | aliases (options : Options)

inductive Fault
  | ambiguous (word : Text) (names : List Text)
  | missingValue (flag : Flag)
  | needlessValue (flag : Flag) (value : Text)
  | badChoice (name value : Text) (choices : List Text)
  | rivals (flag rival : Flag)
  | missingFiles
  | leftOver (words : List Text)
  deriving DecidableEq

def Fault.message : Fault → Text
  | .ambiguous word names =>
    "ambiguous option: " ++ word ++ " could match " ++ Text.joinWith ", " names
  | .missingValue flag => "argument " ++ flag.shown ++ ": expected one argument"
  | .needlessValue flag value =>
    "argument " ++ flag.shown ++ ": ignored explicit argument " ++ value.quoted
  | .badChoice name value choices =>
    "argument " ++ name ++ ": invalid choice: " ++ value.quoted ++ " (choose from " ++
      Text.joinWith ", " (choices.map (·.quoted)) ++ ")"
  | .rivals flag rival =>
    "argument " ++ flag.shown ++ ": not allowed with argument " ++ rival.shown
  | .missingFiles => "the following arguments are required: files"
  | .leftOver words => "unrecognized arguments: " ++ Text.joinWith " " words

inductive Stop
  | request (request : Request)
  | fault (scope : Scope) (fault : Fault)

structure Use where
  flag : Flag
  value : Text
  deriving DecidableEq

structure Cluster where
  uses : List Use
  waiting : Option Flag
  leftOver : List Text
  deriving DecidableEq

def Cluster.alone (flag : Flag) : Cluster :=
  if flag.takesValue then ⟨[], some flag, []⟩ else ⟨[⟨flag, []⟩], none, []⟩

def Cluster.add (flag : Flag) (cluster : Cluster) : Cluster :=
  { cluster with uses := ⟨flag, []⟩ :: cluster.uses }

/-- Takes the flags in one word apart: behind a short flag without value, further short flags may
stand. -/
def Cluster.read (scope : Scope) (flag : Flag) (isLong byEquals : Bool) :
    Text → Except Fault Cluster
  | [] =>
    if flag.takesValue then .ok ⟨[⟨flag, []⟩], none, []⟩ else .error (.needlessValue flag [])
  | c :: rest =>
    if flag.takesValue then .ok ⟨[⟨flag, c :: rest⟩], none, []⟩
    else if isLong || byEquals || c == '-' then .error (.needlessValue flag (c :: rest))
    else
      match scope.spellings.lookup [.char '-', c] with
      | none => .ok ⟨[⟨flag, []⟩], none, [.char '-' :: c :: rest]⟩
      | some next =>
        Cluster.add flag <$>
          match rest with
          | [] => .ok (.alone next)
          | '=' :: value => Cluster.read scope next false true value
          | rest => Cluster.read scope next false false rest

def Cluster.ofGiven (scope : Scope) (given : Given) : Except Fault Cluster :=
  match given.attached with
  | none => .ok (.alone given.flag)
  | some ⟨byEquals, text⟩ => Cluster.read scope given.flag given.isLong byEquals text

structure Progress where
  options : Options
  given : List Flag
  leftOver : List Text

def Progress.initial : Progress := ⟨.initial, [], []⟩

def Options.set (options : Options) (use : Use) : Options :=
  match use.flag with
  | .project => { options with project := use.value }
  | .noColor => { options with noColor := true }
  | .verbose => { options with verbose := true }
  | .quiet => { options with quiet := true }
  | .extension => { options with extension := use.value }
  | .outDir => { options with outDir := some use.value }
  | .strict => { options with strict := true }
  | .help | .version => options

def Progress.apply (scope : Scope) (progress : Progress) (use : Use) : Except Stop Progress := do
  let flag := use.flag
  if let some choices := flag.choices? then
    if use.value ∉ choices then throw (.fault scope (.badChoice flag.shown use.value choices))
  if let some rival := flag.rival? then
    if rival ∈ progress.given then throw (.fault scope (.rivals flag rival))
  match flag with
  | .help => throw (.request (.help scope))
  | .version => throw (.request .version)
  | _ =>
    return { progress with options := progress.options.set use, given := flag :: progress.given }

def Progress.applyAll (scope : Scope) (progress : Progress) (uses : List Use) :
    Except Stop Progress :=
  uses.foldlM (Progress.apply scope) progress

def Progress.leave (progress : Progress) (texts : List Text) : Progress :=
  { progress with leftOver := progress.leftOver ++ texts }

def readFlag (scope : Scope) (progress : Progress) (given : Given) (rest : List Word) :
    Except Stop (Progress × List Word) := do
  let cluster ← (Cluster.ofGiven scope given).mapError (.fault scope)
  let progress := progress.leave cluster.leftOver
  match cluster.waiting with
  | none => return (← progress.applyAll scope cluster.uses, rest)
  | some flag =>
    match rest with
    | ⟨value, .operand⟩ :: rest =>
      return (← progress.applyAll scope (cluster.uses ++ [⟨flag, value⟩]), rest)
    | _ => throw (.fault scope (.missingValue flag))

def operandsAt (words : List Word) : Option (List Word × List Word) :=
  let (run, rest) := words.span (!·.isFlag)
  if run.any (·.role = .operand) then some (run, rest) else none

def textsOf (words : List Word) : List Text :=
  (words.eraseP (·.text = ("--" : Text))).map (·.text)

def readWords (scope : Scope) : Nat → Bool → Progress → List Word → Except Stop Progress
  | 0, _, progress, words => .ok (progress.leave (words.map (·.text)))
  | _, _, progress, [] => .ok progress
  | fuel + 1, wanted, progress, word :: rest =>
    match word.role with
    | .flag given => do
      let (progress, rest) ← readFlag scope progress given rest
      readWords scope fuel wanted progress rest
    | .unknown => readWords scope fuel wanted (progress.leave [word.text]) rest
    | .operand | .separator =>
      match if wanted then operandsAt (word :: rest) else none with
      | some (run, rest) =>
        let options := { progress.options with files := textsOf run }
        readWords scope fuel false { progress with options } rest
      | none =>
        let (run, rest) := (word :: rest).span (!·.isFlag)
        readWords scope fuel wanted (progress.leave (run.map (·.text))) rest

def roles (scope : Scope) (texts : List Text) : Except Stop (List Word) :=
  (Word.ofTexts scope texts).mapError fun (text, names) => .fault scope (.ambiguous text names)

def readCommand (scope : Scope) (texts : List Text) : Except Stop Progress := do
  let words ← roles scope texts
  let progress ← readWords scope words.length (scope = .convert) .initial words
  if scope = .convert ∧ progress.options.files = [] then throw (.fault scope .missingFiles)
  return progress

def finish (request : Option (Options → Request)) (progress : Progress) : Except Stop Request :=
  if progress.leftOver ≠ [] then .error (.fault .program (.leftOver progress.leftOver))
  else
    match request with
    | none => .ok (.help .program)
    | some request => .ok (request progress.options)

def readProgram : Progress → List Word → Except Stop Request
  | progress, [] => finish none progress
  | progress, word :: rest =>
    match word.role with
    | .flag given => do
      let cluster ← (Cluster.ofGiven .program given).mapError (.fault .program)
      let progress := progress.leave cluster.leftOver
      readProgram (← progress.applyAll .program cluster.uses) rest
    | .unknown => readProgram (progress.leave [word.text]) rest
    | .operand | .separator =>
      if !(word :: rest).any (·.role = .operand) then
        finish none (progress.leave ((word :: rest).map (·.text)))
      else
        match Scope.commands.find? (·.word = word.text) with
        | none =>
          .error (.fault .program
            (.badChoice "<command>" word.text (Scope.commands.map (·.word))))
        | some scope => do
          let inner ← readCommand scope (rest.map (·.text))
          let request := if scope = .convert then Request.convert else Request.aliases
          finish (some request) { inner with leftOver := progress.leftOver ++ inner.leftOver }

def read (texts : List Text) : Except Stop Request := do
  readProgram .initial (← roles .program texts)

end Relink.Command
