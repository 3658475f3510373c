import Relink.Proofs.Command.Batch
import Relink.Proofs.Probing
import Relink.Proofs.Storage.Storing

/-!
Runs over several files on a disk with links. Whatever becomes of the others, a file that is
converted by itself is converted and stored in a run as it would be alone, up to the first file that
cannot be stored or has a text that cannot be written.
-/

namespace Relink

def Command.Ending.status? : Ending → Option Nat
  | .exit status => some status
  | .escape _ => none

namespace Command.Session

open Disk (Output)
open Project (importChars importGrammar importWords)

variable {session session' : Session} {options : Options} {palette : Palette} {project : Project}
  {grammar : Source.Grammar} {tally : Tally} {outDir file : Text} {text : Chars}
  {files done rest : List Text} {last stored : Disk} {converted : Conversion}
  {fault : Conversion.Fault}

def outputOf (session : Session) (project : Project) (outDir file : Text) (text : Chars) :
    Output where
  path := destination session.disk.workingDirectory outDir file project.config.directory
  proper := proper_destination _ _ _ _
  contents := text.utf8

/-- What is stored for those of the files that are converted on the disk as it is. -/
def outputs (session : Session) (grammar : Source.Grammar) (project : Project) (outDir : Text)
    (files : List Text) : List Output :=
  files.filterMap fun file =>
    (session.conversionBy grammar project file).toOption.map fun converted =>
      session.outputOf project outDir file converted.text

def Fails (session : Session) (grammar : Source.Grammar) (project : Project) (file : Text) : Prop :=
  ∃ fault, session.conversionBy grammar project file = .error fault

def Misses (session : Session) (grammar : Source.Grammar) (project : Project)
    (file : Text) : Prop :=
  ∃ converted, session.conversionBy grammar project file = .ok converted ∧ converted.misses ≠ []

/-- With a disk instead, a file reads as before or still not at all, and nothing else is found at a
path that is probed for it. -/
structure Undisturbed (session : Session) (grammar : Source.Grammar) (project : Project)
    (disk : Disk) (file : Text) : Prop where
  reads : (disk.readBytes file).toOption = (session.disk.readBytes file).toOption
  probes : ∀ path ∈ ({ project with setting := session.setting } : Project).probed grammar file,
    disk.stat path = session.disk.stat path

instance (session : Session) (grammar : Source.Grammar) (project : Project) (disk : Disk)
    (file : Text) :
    Decidable (session.Undisturbed grammar project disk file) :=
  decidable_of_iff ((disk.readBytes file).toOption = (session.disk.readBytes file).toOption ∧
      ∀ path ∈ ({ project with setting := session.setting } : Project).probed grammar file,
        disk.stat path = session.disk.stat path)
    ⟨fun ⟨reads, probes⟩ => ⟨reads, probes⟩, fun ⟨reads, probes⟩ => ⟨reads, probes⟩⟩

theorem usable_of_named (session : Session) (named : .char '\x00' ∉ file) :
    session.setting.storage.Usable file := by
  exact Disk.storage_usable_iff.2 fun hobstacle =>
    named (Disk.obstacle?_eq_some_unusableName hobstacle)

theorem ofFile_of_unreadable (named : .char '\x00' ∉ file)
    (h : (session.disk.readBytes file).toOption = none) :
    ∃ fault, session.conversionBy grammar project file = .error fault ∧ fault.OfFile := by
  cases hread : session.disk.readBytes file with
  | ok contents =>
    rw [hread] at h
    cases h
  | error fault =>
    obtain ⟨found, hinput, hfound⟩ := conversionBy_of_unreadable hread
    exact ⟨found, hfound, Project.ofFile_of_input (session.usable_of_named named) hinput⟩

theorem ofFile_of_conversionBy (wellFormed : grammar.WellFormed) (named : .char '\x00' ∉ file)
    (writable : ∀ unencodable,
      session.conversionBy grammar project file ≠ .error (.edit (.unencodable unencodable)))
    (h : session.conversionBy grammar project file = .error fault) : fault.OfFile := by
  rw [conversionBy, Project.convertBy_none] at h
  refine Project.ofFile_of_convertTo wellFormed (session.usable_of_named named) ?_ h
  intro unwritable
  obtain ⟨unencodable, hresult⟩ := Project.convertTo_of_unwritable wellFormed unwritable
  exact writable unencodable hresult

theorem conversionBy_of_disk (h : session'.disk = session.disk) :
    session'.conversionBy grammar project file = session.conversionBy grammar project file := by
  rw [conversionBy, conversionBy, setting, setting, h]

theorem conversionBy_congr (hhere : session'.disk.here = session.disk.here)
    (hread : session'.disk.readBytes file = session.disk.readBytes file)
    (probes : ∀ path ∈ ({ project with setting := session.setting } : Project).probed grammar file,
      session'.disk.stat path = session.disk.stat path) :
    session'.conversionBy grammar project file = session.conversionBy grammar project file := by
  have hproject : { project with setting := session'.setting } =
      ({ project with setting := session.setting } : Project).on session'.disk.storage := by
    simp only [Project.on, Setting.on, setting, Disk.workingDirectory, hhere]
  rw [conversionBy, conversionBy, hproject]
  apply Project.convertBy_congr
  · change session'.disk.readText file = session.disk.readText file
    simp only [Disk.readText, hread]
  · exact Storage.Agree.of_same_entries probes

theorem Undisturbed.conversionBy (h : session.Undisturbed grammar project last file)
    (named : .char '\x00' ∉ file) (hbetween : Disk.Between session.disk last session'.disk) :
    session'.conversionBy grammar project file = session.conversionBy grammar project file ∨
      (∃ fault, session'.conversionBy grammar project file = .error fault ∧ fault.OfFile) ∧
        session.Fails grammar project file := by
  have hread := hbetween.readBytes h.reads
  cases hfirst : (session.disk.readBytes file).toOption with
  | none =>
    rw [hfirst] at hread
    obtain ⟨fault, hfault, -⟩ := ofFile_of_unreadable named hfirst
    exact .inr ⟨ofFile_of_unreadable named hread, fault, hfault⟩
  | some contents =>
    left
    apply conversionBy_congr hbetween.before.here
    · rw [toOption_eq_some_iff.1 hfirst, toOption_eq_some_iff.1 (hread.trans hfirst)]
    · exact fun path hpath => hbetween.stat (h.probes path hpath)

theorem outputOf_congr (hhere : session'.disk.here = session.disk.here) :
    session'.outputOf project outDir file text = session.outputOf project outDir file text := by
  simp only [outputOf, Disk.workingDirectory, hhere]

theorem store_eq (session : Session) (output : Output) (h : output.contents = text.utf8) :
    session.store output.path text =
      (session.disk.storeFile output).map ({ session with disk := · }) := by
  simp only [store, Disk.storeFile, h, bind, Except.bind]
  cases session.disk.ensureDirectory output.path.parent with
  | error fault => rfl
  | ok made =>
    dsimp only
    cases made.writeBytes output.path.toText text.utf8 <;> rfl

section Run

variable (hout : options.outDir = some outDir) (hne : outDir ≠ [])
include hout hne

theorem deliver_eq : ∃ log,
    session.deliver options project file text =
      (session.disk.storeFile (session.outputOf project outDir file text)).map fun disk =>
        ({ session with disk } : Session).report options log := by
  obtain ⟨c, outDir, rfl⟩ := List.exists_cons_of_ne_nil hne
  have hstore := session.store_eq (session.outputOf project (c :: outDir) file text) rfl
  refine ⟨[⟨.info, .command,
    file ++ " -> " ++ (session.outputOf project (c :: outDir) file text).path.toText⟩], ?_⟩
  rw [outputOf] at hstore ⊢
  simp only [deliver, hout, hstore, bind, Except.bind]
  cases session.disk.storeFile _ <;> rfl

theorem convertFileBy_of_stored (palette : Palette) (tally : Tally)
    (hconverted : session.conversionBy grammar project file = .ok converted)
    (h : session.disk.storeFile (session.outputOf project outDir file converted.text) =
      .ok stored) :
    ∃ next : Session, next.disk = stored ∧
      session.convertFileBy grammar options palette project tally file =
        (next, .ok { tally with misses := tally.misses + converted.misses.length }) := by
  obtain ⟨reported, hdisk, hequal⟩ := convertFileBy_of_ok hconverted
  obtain ⟨log, hdeliver⟩ := deliver_eq hout hne
  rw [hdisk, outputOf_congr (congrArg Disk.here hdisk), h] at hdeliver
  refine ⟨_, ?_, by rw [hequal, hdeliver]; rfl⟩
  exact disk_report _ _ _

theorem convertFileBy_of_refused (palette : Palette) (tally : Tally) {fault : Relink.Fault}
    (hconverted : session.conversionBy grammar project file = .ok converted)
    (h : session.disk.storeFile (session.outputOf project outDir file converted.text) =
      .error fault) :
    ∃ next : Session, next.disk = session.disk ∧
      session.convertFileBy grammar options palette project tally file =
        (next, .error (.storage fault)) := by
  obtain ⟨reported, hdisk, hequal⟩ := convertFileBy_of_ok hconverted
  obtain ⟨log, hdeliver⟩ := deliver_eq hout hne
  rw [hdisk, outputOf_congr (congrArg Disk.here hdisk), h] at hdeliver
  exact ⟨reported, hdisk, by rw [hequal, hdeliver]; rfl⟩

end Run

theorem convertFileBy_of_ofFile (palette : Palette) (tally : Tally)
    (h : session.conversionBy grammar project file = .error fault) (ofFile : fault.OfFile) :
    ∃ next : Session, next.disk = session.disk ∧
      session.convertFileBy grammar options palette project tally file =
        (next, .ok { tally with failed := tally.failed + 1 }) := by
  obtain ⟨reported, hdisk, hequal⟩ := convertFileBy_of_error h
  obtain ⟨message, hmessage⟩ := ofFile.exists_message
  exact ⟨reported.complain (errorLine palette message), hdisk, by rw [hequal, hmessage]⟩

theorem convertFileBy_of_unwritable (palette : Palette) (tally : Tally)
    {unencodable : Utf8.Unencodable}
    (h : session.conversionBy grammar project file = .error (.edit (.unencodable unencodable))) :
    ∃ next : Session, next.disk = session.disk ∧
      session.convertFileBy grammar options palette project tally file =
        (next, .error (.conversion (.edit (.unencodable unencodable)))) := by
  obtain ⟨reported, hdisk, hequal⟩ := convertFileBy_of_error h
  exact ⟨reported, hdisk, hequal⟩

theorem outputs_concat_of_ok (h : session.conversionBy grammar project file = .ok converted) :
    session.outputs grammar project outDir (done ++ [file]) =
      session.outputs grammar project outDir done ++
        [session.outputOf project outDir file converted.text] := by
  rw [outputs, List.filterMap_append, outputs]
  simp [h, Except.toOption]

theorem outputs_concat_of_fails (h : session.Fails grammar project file) :
    session.outputs grammar project outDir (done ++ [file]) =
      session.outputs grammar project outDir done := by
  obtain ⟨fault, hfault⟩ := h
  rw [outputs, List.filterMap_append, outputs]
  simp [hfault, Except.toOption]

/-- What a run over some files has come to: what can be stored is stored, and the rest is
counted. -/
structure Reaches (session : Session) (grammar : Source.Grammar) (project : Project) (outDir : Text)
    (done : List Text) (reached : Session) (tally : Tally) : Prop where
  stored : session.disk.storeAll (session.outputs grammar project outDir done) = .ok reached.disk
  failed : tally.failed ≠ 0 ↔ ∃ file ∈ done, session.Fails grammar project file
  misses : tally.misses ≠ 0 ↔ ∃ file ∈ done, session.Misses grammar project file

namespace Reaches

variable {reached next : Session}

theorem of_fails (h : session.Reaches grammar project outDir done reached tally)
    (hfails : session.Fails grammar project file) (hnext : next.disk = reached.disk) :
    session.Reaches grammar project outDir (done ++ [file]) next
      { tally with failed := tally.failed + 1 } where
  stored := by rw [outputs_concat_of_fails hfails, hnext, h.stored]
  failed := iff_of_true (Nat.succ_ne_zero _) ⟨file, by simp, hfails⟩
  misses := by
    rw [h.misses]
    simp only [List.mem_append, List.mem_singleton, or_and_right, exists_or, exists_eq_left]
    refine (or_iff_left ?_).symm
    rintro ⟨converted, hconverted, -⟩
    obtain ⟨fault, hfault⟩ := hfails
    rw [hconverted] at hfault
    cases hfault

theorem of_stored (h : session.Reaches grammar project outDir done reached tally)
    (hconverted : session.conversionBy grammar project file = .ok converted)
    (hnext : reached.disk.storeFile (session.outputOf project outDir file converted.text) =
      .ok next.disk) :
    session.Reaches grammar project outDir (done ++ [file]) next
      { tally with misses := tally.misses + converted.misses.length } where
  stored := by
    rw [outputs_concat_of_ok hconverted, Disk.storeAll_concat, h.stored]
    exact hnext
  failed := by
    rw [h.failed]
    simp only [List.mem_append, List.mem_singleton, or_and_right, exists_or, exists_eq_left]
    refine (or_iff_left ?_).symm
    rintro ⟨fault, hfault⟩
    rw [hconverted] at hfault
    cases hfault
  misses := by
    have hfile : session.Misses grammar project file ↔ converted.misses.length ≠ 0 := by
      rw [Misses, hconverted]
      simp
    have hsum : tally.misses + converted.misses.length ≠ 0 ↔
        tally.misses ≠ 0 ∨ converted.misses.length ≠ 0 := by omega
    rw [hsum, h.misses, ← hfile]
    simp only [List.mem_append, List.mem_singleton, or_and_right, exists_or, exists_eq_left]

end Reaches

theorem reaches_convertFilesBy (palette : Palette) (wellFormed : grammar.WellFormed)
    (closed : session.disk.Closed) (hout : options.outDir = some outDir) (hne : outDir ≠ [])
    (named : ∀ file ∈ files, .char '\x00' ∉ file)
    (writable : ∀ file ∈ files, ∀ unencodable,
      session.conversionBy grammar project file ≠ .error (.edit (.unencodable unencodable)))
    (storable : session.disk.Storable (session.outputs grammar project outDir files))
    (undisturbed : ∀ stored,
      session.disk.storeAll (session.outputs grammar project outDir files) = .ok stored →
      ∀ file ∈ files, session.Undisturbed grammar project stored file)
    {start : Session} (hstart : start.disk = session.disk) (hdone : done <+: files) :
    ∃ reached tally,
      convertFilesBy grammar options palette project start ⟨0, 0⟩ done = (reached, .ok tally) ∧
        session.Reaches grammar project outDir done reached tally := by
  obtain ⟨last, hlast, -, hway⟩ := storable.exists_storeAll closed
  induction done using List.reverseRecOn with
  | nil => exact ⟨start, ⟨0, 0⟩, rfl, congrArg Except.ok hstart.symm, by simp, by simp⟩
  | append_singleton done file ih =>
    have hfile : file ∈ files := hdone.subset (by simp)
    obtain ⟨reached, tally, hrun, hreaches⟩ := ih ((List.prefix_append done [file]).trans hdone)
    obtain ⟨carrier, hcarrier, -, hbetween⟩ :=
      hway _ (((List.prefix_append done [file]).trans hdone).filterMap _)
    obtain rfl : carrier = reached.disk := Except.ok.inj (hcarrier.symm.trans hreaches.stored)
    have hstep : ∀ {next tally'},
        reached.convertFileBy grammar options palette project tally file = (next, .ok tally') →
        convertFilesBy grammar options palette project start ⟨0, 0⟩ (done ++ [file]) =
          (next, .ok tally') := by
      intro next tally' hnext
      rw [convertFilesBy_append, hrun]
      simp only [convertFilesBy, hnext]
    have hconversion :=
      (undisturbed last hlast file hfile).conversionBy (named file hfile) hbetween
    cases hconverted : session.conversionBy grammar project file with
    | error fault =>
      obtain ⟨found, hfound, ofFile⟩ :
          ∃ found, reached.conversionBy grammar project file = .error found ∧ found.OfFile := by
        obtain hsame | ⟨hfails, -⟩ := hconversion
        · exact ⟨fault, hsame.trans hconverted, ofFile_of_conversionBy wellFormed (named file hfile)
            (writable file hfile) hconverted⟩
        · exact hfails
      obtain ⟨next, hnext, hfileRun⟩ := convertFileBy_of_ofFile palette tally hfound ofFile
      exact ⟨next, _, hstep hfileRun, hreaches.of_fails ⟨fault, hconverted⟩ hnext⟩
    | ok converted =>
      have hsame : reached.conversionBy grammar project file = .ok converted := by
        obtain hsame | ⟨-, fault, hfault⟩ := hconversion
        · exact hsame.trans hconverted
        · rw [hconverted] at hfault
          cases hfault
      obtain ⟨stored, hstored, -⟩ := hway _ (hdone.filterMap _)
      change session.disk.storeAll (session.outputs grammar project outDir (done ++ [file])) =
        .ok stored at hstored
      rw [outputs_concat_of_ok hconverted, Disk.storeAll_concat, hreaches.stored] at hstored
      change reached.disk.storeFile _ = .ok stored at hstored
      have houtput : reached.disk.storeFile (reached.outputOf project outDir file converted.text) =
          .ok stored := by
        rwa [outputOf_congr hbetween.before.here]
      obtain ⟨next, rfl, hfileRun⟩ :=
        convertFileBy_of_stored hout hne palette tally hsame houtput
      exact ⟨next, _, hstep hfileRun, hreaches.of_stored hconverted hstored⟩

theorem mem_outputs (hfile : file ∈ files)
    (hconverted : session.conversionBy grammar project file = .ok converted) :
    session.outputOf project outDir file converted.text ∈
      session.outputs grammar project outDir files :=
  List.mem_filterMap.2 ⟨file, hfile, by simp [hconverted, Except.toOption]⟩

section Ends

variable {reached : Session} (hout : options.outDir = some outDir) (hne : outDir ≠ [])
  (hcreate : Project.create session.setting session.disk (.file options.project)
    (.string options.extension) = .ok project)
  (hrun : convertFilesBy grammar options palette project (session.opened options) ⟨0, 0⟩ done =
    (reached, .ok tally))
include hout hne hcreate hrun

theorem Reaches.convertBy_ends (hfiles : options.files = done)
    (h : session.Reaches grammar project outDir done reached tally) :
    (session.convertBy grammar palette options).session.disk = reached.disk ∧
      ∃ status ≤ 1, (session.convertBy grammar palette options).ending = .exit status ∧
        (status = 1 ↔ (∃ file ∈ options.files, session.Fails grammar project file) ∨
          options.strict ∧ ∃ file ∈ options.files, session.Misses grammar project file) := by
  rw [← hfiles] at hrun h
  rw [convertBy_of_ok hout hne hcreate hrun, ← h.failed, ← h.misses]
  simp only [exit]
  refine ⟨by split <;> rfl, _, ?_, rfl, ?_⟩
  · split <;> simp
  · split <;> simp [*]

theorem convertBy_stops {next : Session} {escape : Escape}
    (hfiles : options.files = done ++ file :: rest)
    (hfile : reached.convertFileBy grammar options palette project tally file =
      (next, .error escape)) :
    session.convertBy grammar palette options = ⟨next, .escape escape⟩ := by
  apply convertBy_of_error hout hne hcreate
  rw [hfiles, convertFilesBy_append, hrun]
  simp only [convertFilesBy, hfile]

end Ends

def isolatedDisk : Disk where
  nodes := [
    (["p"], .directory), (["p", "tsconfig.json"], .file (Chars.utf8 "\x7b\x7d")),
    (["p", "a.ts"], .file importChars.utf8), (["p", "b.ts"], .file (Chars.utf8 "b();\n")),
    (["p", "c.ts"], .file [0xff]), (["p", "out"], .link "build"), (["p", "build"], .directory)]
  here := ["p"]

def isolatedOptions : Options :=
  { Options.initial with outDir := some "out", files := ["c.ts", "a.ts", "gone.ts", "b.ts"] }

def isolatedSession : Session := ⟨isolatedDisk, [], []⟩

theorem closed_isolatedDisk : isolatedDisk.Closed where
  here := rfl
  parent _ _ := Disk.lookup_dropLast_of_nodes (by decide +kernel)

theorem exists_project_isolated :
    ∃ project, Project.create isolatedSession.setting isolatedDisk (.file "tsconfig.json")
        (.string ".js") = .ok project ∧
      (∀ file ∈ isolatedOptions.files,
        (match isolatedSession.conversionBy (importGrammar importWords) project file with
          | .ok _ => true
          | .error fault => fault.message?.isSome) = true) ∧
      isolatedDisk.Storable (isolatedSession.outputs (importGrammar importWords) project "out"
        isolatedOptions.files) ∧
      (∀ stored, isolatedDisk.storeAll
        (isolatedSession.outputs (importGrammar importWords) project "out"
          isolatedOptions.files) = .ok stored →
        ∀ file ∈ isolatedOptions.files,
          isolatedSession.Undisturbed (importGrammar importWords) project stored file) ∧
      ∃ converted,
        isolatedSession.conversionBy (importGrammar importWords) project "a.ts" = .ok converted ∧
        converted.text = ("import a from './b.js';\n" : Chars) ∧
        (isolatedSession.outputOf project "out" "a.ts" converted.text).path.toText =
          ("out/a.ts" : Text) := by
  decide +kernel

def blockedDisk : Disk where
  nodes := [
    (["p"], .directory), (["p", "tsconfig.json"], .file (Chars.utf8 "\x7b\x7d")),
    (["p", "a.ts"], .file (Chars.utf8 "a();\n")), (["p", "b.ts"], .file (Chars.utf8 "b();\n")),
    (["p", "out"], .directory), (["p", "out", "a.ts"], .directory)]
  here := ["p"]

def runOn (disk : Disk) (grammar : Source.Grammar) (files : List Text) : Outcome :=
  Session.convertBy grammar ⟨disk, [], []⟩ ⟨false⟩
    { Options.initial with outDir := some "out", files }

def halvedDisk : Disk where
  nodes := [
    (["p"], .directory),
    (["p", "tsconfig.json"], .file (Chars.utf8
      "\x7b\"compilerOptions\":\x7b\"paths\":\x7b\"@xy\":[\"\\ud800\"]\x7d\x7d\x7d")),
    (["p", "a.ts"], .file Source.aliasedChars.utf8), (["p", "b.ts"], .file (Chars.utf8 "b();\n"))]
  here := ["p"]

end Command.Session

end Relink
