import Relink.Extension
import Relink.Log
import Relink.Path.Flavour
import Relink.Storage.Basic

namespace Relink

inductive Strategy
  | directoryIndex
  | sourceFile
  | sourceSuffix
  | existingFile
  | emittedFile
  | notFound
  deriving DecidableEq

structure Resolution where
  path : Text
  strategy : Strategy
  probed : List Text
  deriving DecidableEq

def Strategy.name : Strategy → Text
  | .directoryIndex => "directory_index"
  | .sourceFile => "source_file"
  | .sourceSuffix => "source_suffix"
  | .existingFile => "existing_file"
  | .emittedFile => "emitted_file"
  | .notFound => "not_found"

namespace Resolution

def found (resolution : Resolution) : Bool := resolution.strategy != .notFound

def sourceSuffixes : List Text := [".ts", ".tsx", ".mts", ".cts"]

def ofFile (flavour : Flavour) (path ext : Text) (probed : List Text) : Resolution :=
  let (root, suffix) := flavour.splitExtension path
  if suffix ∈ sourceSuffixes ∧ ¬ (".d" : Text).isSuffixOf root then
    ⟨root ++ ext, .sourceSuffix, probed⟩
  else ⟨path, .existingFile, probed⟩

def stem? (path ext : Text) : Option Text :=
  if ext.isSuffixOf path then some (path.take (path.length - ext.length)) else none

def resolve (flavour : Flavour) (storage : Storage) (candidate : Text) (extension : Extension) :
    Resolution :=
  let ext := extension.text
  let probed := [candidate, candidate ++ ".ts", candidate ++ ".tsx"]
  if storage.isDirectory candidate then
    ⟨flavour.join candidate ("index" ++ ext), .directoryIndex, [candidate]⟩
  else if storage.isFile (candidate ++ ".ts") then
    ⟨candidate ++ ext, .sourceFile, [candidate, candidate ++ ".ts"]⟩
  else if storage.isFile (candidate ++ ".tsx") then ⟨candidate ++ ext, .sourceFile, probed⟩
  else if storage.isFile candidate then ofFile flavour candidate ext probed
  else
    match stem? candidate ext with
    | some stem =>
      if storage.isFile (stem ++ ".ts") then
        ⟨candidate, .emittedFile, probed ++ [stem ++ ".ts"]⟩
      else
        let probed := probed ++ [stem ++ ".ts", stem ++ ".tsx"]
        if storage.isFile (stem ++ ".tsx") then ⟨candidate, .emittedFile, probed⟩
        else ⟨candidate, .notFound, probed⟩
    | none =>
      let probed := probed ++ [candidate ++ ext]
      if storage.isFile (candidate ++ ext) then ⟨candidate ++ ext, .emittedFile, probed⟩
      else ⟨candidate, .notFound, probed⟩

def log (storage : Storage) (resolution : Resolution) : Log :=
  let failures := resolution.probed.filterMap fun path =>
    match storage.stat path with
    | .ok _ => none
    | .error fault =>
      some ⟨.debug, .resolver, "probe failed for " ++ path ++ ": " ++ fault.message⟩
  if resolution.found then failures
  else
    failures ++ [⟨.warning, .resolver, "could not resolve " ++ resolution.path ++ " (tried " ++
      Text.joinWith ", " resolution.probed ++ ")"⟩]

end Resolution

end Relink
