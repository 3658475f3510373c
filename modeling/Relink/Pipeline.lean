import Relink.Conversion

namespace Relink.Pipeline

structure Item where
  path : Text
  contents : Option Contents
  extension : Text

/-- An item without an extension of its own takes the suffix of its path. -/
def Item.of (path : Text) (contents : Option Contents) (extension : Text) : Item where
  path := path
  contents := contents
  extension := if extension = [] then (Path.Parts.ofText path).suffix else extension

structure Step where
  project : Project
  extension : Extension
  selected : List Text

def defaultSelected : List Text := [".ts", ".tsx"]

inductive Fault
  | stream (name : Text)
  | conversion (fault : Conversion.Fault)

def streamMessage (name : Text) : Text :=
  "Streams are not supported. Received file: " ++ name

inductive Outcome
  | passed
  | failed (fault : Fault)
  | converted (text : Chars)

def Outcome.fault? : Outcome → Option Fault
  | .failed fault => some fault
  | _ => none

def Outcome.item (outcome : Outcome) (item : Item) : Item :=
  match outcome with
  | .converted text => { item with contents := some (.octets text.utf8) }
  | _ => item

def Step.process (step : Step) (grammar : Source.Grammar) (item : Item) :
    Except Conversion.Fault Outcome × Log :=
  if item.extension ∉ step.selected then (.ok .passed, [])
  else
    match item.contents with
    | none => (.ok (.failed (.stream (Path.Parts.ofText item.path).name)), [])
    | some contents =>
      let report := step.project.convertTo grammar item.path contents step.extension
      match report.result with
      | .ok conversion => (.ok (.converted conversion.text), report.log)
      | .error fault =>
        match fault.message? with
        | some message =>
          (.ok (.failed (.conversion fault)), report.log ++ [⟨.error, .converter, message⟩])
        | none => (.error fault, report.log)

/-- What has come of the items before the one, if any, whose fault ended the run. -/
structure Run where
  results : List (Item × Outcome)
  fault : Option Conversion.Fault
  log : Log

def Step.runBy (step : Step) (grammar : Source.Grammar) : List Item → Run
  | [] => ⟨[], none, []⟩
  | item :: rest =>
    match step.process grammar item with
    | (.error fault, log) => ⟨[], some fault, log⟩
    | (.ok outcome, log) =>
      let later := step.runBy grammar rest
      ⟨(item, outcome) :: later.results, later.fault, log ++ later.log⟩

end Relink.Pipeline
