import Relink.Project
import Relink.Source.Grammar
import Relink.Source.Site

namespace Relink

inductive Contents
  | text (text : Text)
  | octets (octets : Bytes)
  | stored

structure Conversion where
  text : Chars
  edits : List Edit
  misses : List Miss

namespace Conversion

inductive Fault
  | unreadable (fault : Relink.Fault)
  | undecodable (path : Text) (defect : Utf8.Defect)
  | extension (value : Json)
  | source (fault : Source.Fault)
  | edit (fault : Edit.Fault)

def undecodableMessage (path : Text) (defect : Utf8.Defect) : Text :=
  "Source is not valid UTF-8: " ++ path ++ " (" ++ defect.message ++ ")"

/-- What is said of a fault that concerns the file alone; none for one that points beyond it. -/
def Fault.message? : Fault → Option Text
  | .unreadable fault => if fault.kind = .unusableName then none else some fault.message
  | .undecodable path defect => some (undecodableMessage path defect)
  | .extension value => some (Extension.unsupported value)
  | .source (.badImport file line column snippet) =>
    some (Source.badImportMessage file line column snippet)
  | .source (.malformed _) | .edit _ => none

structure Report where
  result : Except Fault Conversion
  log : Log

end Conversion

namespace Project

open Conversion

def inputOfText (path text : Text) : Except Conversion.Fault Bytes :=
  text.utf8?.mapError fun unencodable => .undecodable path (.unencodable unencodable)

def input (project : Project) (path : Text) : Contents → Except Conversion.Fault Bytes
  | .text text => inputOfText path text
  | .octets octets =>
    match Utf8.decode octets with
    | .ok _ => .ok octets
    | .error malformed => .error (.undecodable path (.malformed malformed))
  | .stored =>
    match project.setting.storage.read path with
    | .ok text => inputOfText path text
    | .error (.malformed malformed) => .error (.undecodable path (.malformed malformed))
    | .error (.fault fault) =>
      match fault.kind with
      | .unencodable unencodable => .error (.undecodable path (.unencodable unencodable))
      | _ => .error (.unreadable fault)

def outlineLog (project : Project) (path : Text) (broken : Bool) : Log :=
  ⟨.debug, .source, "parsing " ++ path ++ " as " ++ (Dialect.ofPath path).name ++ " (target " ++
      project.config.target.getD "None" ++ ")"⟩ ::
    if broken then
      [⟨.warning, .source, "syntax errors in " ++ path ++ ", rewriting what could be parsed"⟩]
    else []

def convertTree (project : Project) (path : Text) (extension : Extension) (octets : Bytes)
    (root : Node) : Report :=
  let done := Source.rewriteTree project.setting (project.context path extension) octets root
  { log := done.log
    result :=
      match done.fault with
      | some fault => .error (.source fault)
      | none =>
        match Edit.applyAll octets done.edits with
        | .error fault => .error (.edit fault)
        | .ok text => .ok ⟨text, done.edits, done.misses⟩ }

def convertInput (project : Project) (grammar : Source.Grammar) (path : Text)
    (extension : Extension) (octets : Bytes) : Report :=
  let outline := grammar (Dialect.ofPath path) octets
  let report := project.convertTree path extension octets outline.root
  { report with log := project.outlineLog path outline.broken ++ report.log }

def convertTo (project : Project) (grammar : Source.Grammar) (path : Text) (contents : Contents)
    (extension : Extension) : Report :=
  match project.input path contents with
  | .error fault => ⟨.error fault, []⟩
  | .ok octets => project.convertInput grammar path extension octets

def extensionFor (project : Project) : Option Json → Except Conversion.Fault Extension
  | none => .ok project.extension
  | some value =>
    match Extension.parse? value with
    | some extension => .ok extension
    | none => .error (.extension value)

def convertBy (project : Project) (grammar : Source.Grammar) (path : Text) (contents : Contents)
    (extension : Option Json) : Report :=
  match project.input path contents with
  | .error fault => ⟨.error fault, []⟩
  | .ok octets =>
    match project.extensionFor extension with
    | .error fault => ⟨.error fault, []⟩
    | .ok extension => project.convertInput grammar path extension octets

end Project

end Relink
