import Relink.Proofs.Command.Destination
import Relink.Proofs.Conversion
import Relink.Proofs.Storage.Writing

namespace Relink.Command.Session

open Relink.Path (IsName Parts)
open Path.Posix (absolute basename components isAbsolute)

variable {session session' : Session} {options : Options} {palette : Palette} {project : Project}
  {tally tally' : Tally} {outDir directory file a b : Text} {chars : Chars} {disk : Disk}
  {contents : Bytes} {result : Except Escape Tally} {grammar : Source.Grammar}

theorem isAbsolute_workingDirectory (disk : Disk) : isAbsolute disk.workingDirectory = true := rfl

theorem exists_components_eq (path : Text) :
    ∃ front, components path = front ++ [basename path] := by
  by_cases hslash : .char '/' ∈ path
  · obtain ⟨before, after, rfl, hafter⟩ := Text.exists_cut_at_last hslash
    refine ⟨components before, ?_⟩
    rw [Path.Posix.components_append, Path.Posix.components_eq_singleton hafter, basename,
      show Path.Posix.isSeparator = (· == .char '/') from rfl, Text.splitAfterLast_cut hafter]
  · refine ⟨[], ?_⟩
    have hsplit : Text.splitAfterLast Path.Posix.isSeparator ([] ++ path) = ([], path) := by
      refine Text.splitAfterLast_append (by simp) ?_
      intro c hc
      simpa [Path.Posix.isSeparator] using fun heq : c = '/' => hslash (heq ▸ hc)
    rw [List.nil_append] at hsplit
    rw [Path.Posix.components_eq_singleton hslash, basename, hsplit, List.nil_append]

theorem isName_basename (h : disk.IsTree) (hread : disk.readBytes file = .ok contents) :
    IsName (basename file) := by
  obtain ⟨front, hcomponents⟩ := exists_components_eq file
  exact h.isName_of_readBytes hcomponents hread

theorem proper_destination (here outDir file directory : Text) :
    (destination here outDir file directory).Proper :=
  (Parts.proper_ofText outDir).append (Parts.proper_ofText _)

theorem placeOf_destination (outDir : Text)
    (hplain : IsPlain disk.workingDirectory directory file) (hname : IsName (basename file)) :
    disk.placeOf (destination disk.workingDirectory outDir file directory).toText =
      (Parts.ofText outDir).names.foldl Disk.turn
          (Disk.startOf disk.here (Parts.ofText outDir).root) ++
        namesBelow disk.workingDirectory directory file := by
  have hhere := isAbsolute_workingDirectory disk
  rw [Disk.placeOf_toText (proper_destination _ _ _ _), destination_eq hhere outDir hplain,
    List.foldl_append, Disk.foldl_turn_names (isName_namesBelow hhere hname)]

theorem placeOf_destination_ne (outDir : Text)
    (ha : IsPlain disk.workingDirectory directory a) (hname : IsName (basename a))
    (hb : IsPlain disk.workingDirectory directory b) (hname' : IsName (basename b))
    (h : ¬Meets disk.workingDirectory directory a b) :
    disk.placeOf (destination disk.workingDirectory outDir a directory).toText ≠
      disk.placeOf (destination disk.workingDirectory outDir b directory).toText := by
  rw [placeOf_destination outDir ha hname, placeOf_destination outDir hb hname']
  intro heq
  exact h (namesBelow_eq_iff.1 (List.append_cancel_left heq))

@[simp] theorem disk_report (session : Session) (options : Options) (log : Log) :
    (session.report options log).disk = session.disk := by
  unfold report
  induction log.filter _ generalizing session with
  | nil => rfl
  | cons record records ih => exact ih _

def conversionBy (session : Session) (grammar : Source.Grammar) (project : Project) (file : Text) :
    Except Conversion.Fault Conversion :=
  ({ project with setting := session.setting }.convertBy grammar file .stored none).result

theorem conversionBy_of_unreadable {fault : Relink.Fault}
    (h : session.disk.readBytes file = .error fault) :
    ∃ found, ({ project with setting := session.setting } : Project).input file .stored =
      .error found ∧
      session.conversionBy grammar project file = .error found := by
  have hread : session.setting.storage.read file = .error (.fault fault) := by
    simp only [setting, Disk.storage, Disk.readText, h]
  cases hinput : ({ project with setting := session.setting } : Project).input file .stored with
  | error found => exact ⟨found, rfl, by simp only [conversionBy, Project.convertBy, hinput]⟩
  | ok octets =>
    simp only [Project.input, hread] at hinput
    split at hinput <;> cases hinput

theorem exists_readBytes {converted : Conversion}
    (h : session.conversionBy grammar project file = .ok converted) :
    ∃ contents, session.disk.readBytes file = .ok contents := by
  cases hread : session.disk.readBytes file with
  | ok contents => exact ⟨contents, rfl⟩
  | error fault =>
    obtain ⟨found, -, hfound⟩ := conversionBy_of_unreadable hread
    cases h.symm.trans hfound

theorem stored_of_deliver (h : session.disk.IsTree) (hout : options.outDir = some outDir)
    (hne : outDir ≠ []) (hdeliver : session.deliver options project file chars = .ok session') :
    session.disk.Stored session'.disk
      (destination session.disk.workingDirectory outDir file project.config.directory).toText
      chars.utf8 := by
  obtain ⟨c, rest, rfl⟩ := List.exists_cons_of_ne_nil hne
  simp only [deliver, hout] at hdeliver
  obtain ⟨stored, hstore, hdeliver⟩ := bind_eq_ok hdeliver
  cases hdeliver
  obtain ⟨middle, hensure, hstore⟩ := bind_eq_ok hstore
  obtain ⟨written, hwrite, hstore⟩ := bind_eq_ok hstore
  cases hstore
  rw [disk_report]
  exact h.stored (proper_destination _ _ _ _) hensure hwrite

theorem convertFileBy_of_error {fault : Conversion.Fault}
    (h : session.conversionBy grammar project file = .error fault) :
    ∃ reported : Session, reported.disk = session.disk ∧
      session.convertFileBy grammar options palette project tally file =
        match fault.message? with
        | some message =>
          (reported.complain (errorLine palette message),
            .ok { tally with failed := tally.failed + 1 })
        | none => (reported, .error (.conversion fault)) := by
  rw [conversionBy] at h
  exact ⟨_, disk_report _ _ _, by simp only [convertFileBy, h]; rfl⟩

theorem convertFileBy_of_ok {converted : Conversion}
    (h : session.conversionBy grammar project file = .ok converted) :
    ∃ reported : Session, reported.disk = session.disk ∧
      session.convertFileBy grammar options palette project tally file =
        match reported.deliver options project file converted.text with
        | .ok delivered =>
          (delivered, .ok { tally with misses := tally.misses + converted.misses.length })
        | .error fault => (reported, .error (.storage fault)) := by
  rw [conversionBy] at h
  exact ⟨_, disk_report _ _ _, by simp only [convertFileBy, h]; rfl⟩

section Run

variable (hout : options.outDir = some outDir) (hne : outDir ≠ [])
include hout hne

theorem convertFileBy_stored (h : session.disk.IsTree) {converted : Conversion}
    (hconverted : session.conversionBy grammar project file = .ok converted)
    (hfile : session.convertFileBy grammar options palette project tally file =
      (session', .ok tally')) :
    session.disk.Stored session'.disk
      (destination session.disk.workingDirectory outDir file project.config.directory).toText
      converted.text.utf8 := by
  obtain ⟨reported, hdisk, hequal⟩ := convertFileBy_of_ok hconverted
  rw [hequal] at hfile
  split at hfile
  · next delivered hdeliver =>
    cases hfile
    rw [← hdisk] at h ⊢
    exact stored_of_deliver h hout hne hdeliver
  · cases hfile

theorem convertFileBy_cases (h : session.disk.IsTree)
    (hfile : session.convertFileBy grammar options palette project tally file =
      (session', result)) :
    session'.disk = session.disk ∨
      ∃ converted, session.conversionBy grammar project file = .ok converted ∧
        session.disk.Stored session'.disk
          (destination session.disk.workingDirectory outDir file project.config.directory).toText
          converted.text.utf8 := by
  cases hconverted : session.conversionBy grammar project file with
  | error fault =>
    obtain ⟨reported, hdisk, hequal⟩ := convertFileBy_of_error hconverted
    rw [hequal] at hfile
    split at hfile <;> cases hfile <;> exact .inl hdisk
  | ok converted =>
    cases result with
    | ok tally' =>
      exact .inr ⟨converted, rfl, convertFileBy_stored hout hne h hconverted hfile⟩
    | error escape =>
      obtain ⟨reported, hdisk, hequal⟩ := convertFileBy_of_ok hconverted
      rw [hequal] at hfile
      split at hfile
      · cases hfile
      · cases hfile
        exact .inl hdisk

theorem convertFileBy_tree (h : session.disk.IsTree)
    (hfile : session.convertFileBy grammar options palette project tally file =
      (session', result)) :
    session'.disk.IsTree ∧ session'.disk.workingDirectory = session.disk.workingDirectory := by
  obtain hdisk | ⟨_, -, hstored⟩ := convertFileBy_cases hout hne h hfile
  · exact ⟨hdisk ▸ h, congrArg Disk.workingDirectory hdisk⟩
  · exact ⟨hstored.tree, congrArg Disk.pathOf hstored.here⟩

theorem convertFileBy_keeps (h : session.disk.IsTree)
    (hfile : session.convertFileBy grammar options palette project tally b = (session', result))
    (ha : IsPlain session.disk.workingDirectory project.config.directory a)
    (hname : IsName (basename a))
    (hb : IsPlain session.disk.workingDirectory project.config.directory b)
    (hmeets : ¬Meets session.disk.workingDirectory project.config.directory a b)
    (hread : session.disk.readBytes (destination session.disk.workingDirectory outDir a
      project.config.directory).toText = .ok contents) :
    session'.disk.readBytes (destination session.disk.workingDirectory outDir a
      project.config.directory).toText = .ok contents := by
  obtain hdisk | ⟨converted, hconverted, hstored⟩ := convertFileBy_cases hout hne h hfile
  · rwa [hdisk]
  · obtain ⟨_, hb'⟩ := exists_readBytes hconverted
    have hplaces := placeOf_destination_ne outDir ha hname hb (isName_basename h hb') hmeets
    exact hstored.others _ _ hplaces hread

theorem convertFilesBy_tree {files : List Text} (h : session.disk.IsTree)
    (hfiles : convertFilesBy grammar options palette project session tally files =
      (session', result)) :
    session'.disk.IsTree ∧ session'.disk.workingDirectory = session.disk.workingDirectory := by
  induction files generalizing session tally with
  | nil =>
    cases hfiles
    exact ⟨h, rfl⟩
  | cons file files ih =>
    unfold convertFilesBy at hfiles
    split at hfiles
    · next next tally hfile =>
      obtain ⟨htree, hhere⟩ := convertFileBy_tree hout hne h hfile
      obtain ⟨htree', hhere'⟩ := ih htree hfiles
      exact ⟨htree', hhere'.trans hhere⟩
    · next next escape hfile =>
      cases hfiles
      exact convertFileBy_tree hout hne h hfile

theorem convertFilesBy_keeps {files : List Text} {here : Text} (h : session.disk.IsTree)
    (hhere : session.disk.workingDirectory = here)
    (hfiles : convertFilesBy grammar options palette project session tally files =
      (session', result))
    (ha : IsPlain here project.config.directory a) (hname : IsName (basename a))
    (hplain : ∀ b ∈ files, IsPlain here project.config.directory b)
    (hmeets : ∀ b ∈ files, ¬Meets here project.config.directory a b)
    (hread : session.disk.readBytes (destination here outDir a project.config.directory).toText =
      .ok contents) :
    session'.disk.readBytes (destination here outDir a project.config.directory).toText =
      .ok contents := by
  induction files generalizing session tally with
  | nil =>
    cases hfiles
    exact hread
  | cons b files ih =>
    obtain ⟨hb, hplain⟩ := List.forall_mem_cons.1 hplain
    obtain ⟨hab, hmeets⟩ := List.forall_mem_cons.1 hmeets
    subst hhere
    unfold convertFilesBy at hfiles
    split at hfiles
    · next next tally hfile =>
      obtain ⟨htree, hhere⟩ := convertFileBy_tree hout hne h hfile
      have hnext := convertFileBy_keeps hout hne h hfile ha hname hb hab hread
      exact ih htree hhere hfiles hplain hmeets hnext
    · next next escape hfile =>
      cases hfiles
      exact convertFileBy_keeps hout hne h hfile ha hname hb hab hread

end Run

theorem convertFilesBy_append (before after : List Text) (session : Session) (tally : Tally) :
    convertFilesBy grammar options palette project session tally (before ++ after) =
      match convertFilesBy grammar options palette project session tally before with
      | (session, .ok tally) => convertFilesBy grammar options palette project session tally after
      | (session, .error escape) => (session, .error escape) := by
  induction before generalizing session tally with
  | nil => rfl
  | cons file before ih =>
    rw [List.cons_append, convertFilesBy, convertFilesBy]
    split
    · exact ih _ _
    · rfl

def opened (session : Session) (options : Options) : Session :=
  session.report options (Project.createLog session.disk (.file options.project))

/-- A file that is converted and delivered, after those before it, in a run that goes on. -/
structure Delivery (session : Session) (grammar : Source.Grammar) (options : Options)
    (palette : Palette) (project : Project) (before : List Text) (file : Text) where
  middle : Session
  tally : Tally
  next : Session
  tally' : Tally
  conversion : Conversion
  reached : convertFilesBy grammar options palette project session ⟨0, 0⟩ before =
    (middle, .ok tally)
  converted : middle.conversionBy grammar project file = .ok conversion
  delivered : middle.convertFileBy grammar options palette project tally file = (next, .ok tally')

theorem readBytes_delivery (hout : options.outDir = some outDir) (hne : outDir ≠ [])
    {before after : List Text} (h : session.disk.IsTree)
    (hplain : ∀ b ∈ file :: after, IsPlain session.disk.workingDirectory project.config.directory b)
    (hmeets : ∀ b ∈ after, ¬Meets session.disk.workingDirectory project.config.directory file b)
    (delivery : Delivery session grammar options palette project before file) :
    (convertFilesBy grammar options palette project session ⟨0, 0⟩
      (before ++ file :: after)).1.disk.readBytes
        (destination session.disk.workingDirectory outDir file project.config.directory).toText =
      .ok delivery.conversion.text.utf8 := by
  obtain ⟨middle, tally, next, tally', conversion, reached, converted, delivered⟩ := delivery
  obtain ⟨htree, hhere⟩ := convertFilesBy_tree hout hne h reached
  have hstored := convertFileBy_stored hout hne htree converted delivered
  obtain ⟨contents, hread⟩ := exists_readBytes converted
  obtain ⟨hfile, hplain⟩ := List.forall_mem_cons.1 hplain
  have hnext : next.disk.workingDirectory = session.disk.workingDirectory :=
    (congrArg Disk.pathOf hstored.here).trans hhere
  have hrun : convertFilesBy grammar options palette project session ⟨0, 0⟩
      (before ++ file :: after) =
      convertFilesBy grammar options palette project next tally' after := by
    rw [convertFilesBy_append, reached]
    simp only [convertFilesBy, delivered]
  rw [hrun]
  refine convertFilesBy_keeps hout hne hstored.tree hnext rfl hfile (isName_basename htree hread)
    hplain hmeets ?_
  rw [← hhere]
  exact hstored.read

section Ends

variable {next : Session} (hout : options.outDir = some outDir) (hne : outDir ≠ [])
  (hcreate : Project.create session.setting session.disk (.file options.project)
    (.string options.extension) = .ok project)
include hout hne hcreate

theorem convertBy_of_ok (h : convertFilesBy grammar options palette project (session.opened options)
      ⟨0, 0⟩ options.files = (next, .ok tally)) :
    session.convertBy grammar palette options =
      (if tally.misses = 0 then next
        else next.complain (palette.warning (summary tally.misses))).exit
        (if tally.failed ≠ 0 ∨ (options.strict ∧ tally.misses ≠ 0) then 1 else 0) := by
  rw [opened] at h
  rw [convertBy, if_neg (by simp [hout, hne]), withProject]
  simp only [hcreate, h]

theorem convertBy_of_error {escape : Escape}
    (h : convertFilesBy grammar options palette project (session.opened options) ⟨0, 0⟩
      options.files =
      (next, .error escape)) :
    session.convertBy grammar palette options = ⟨next, .escape escape⟩ := by
  rw [opened] at h
  rw [convertBy, if_neg (by simp [hout, hne]), withProject]
  simp only [hcreate, h]

theorem disk_convertBy :
    (session.convertBy grammar palette options).session.disk =
      (convertFilesBy grammar options palette project (session.opened options) ⟨0, 0⟩
        options.files).1.disk := by
  cases hfiles : convertFilesBy grammar options palette project (session.opened options) ⟨0, 0⟩
      options.files with
  | mk next result =>
    cases result with
    | error escape => rw [convertBy_of_error hout hne hcreate hfiles]
    | ok tally =>
      rw [convertBy_of_ok hout hne hcreate hfiles]
      dsimp only [exit]
      split <;> rfl

end Ends

def plainGrammar : Source.Grammar := fun _ octets => ⟨Project.plainTree octets.length, false⟩

def batchDisk : Disk where
  nodes := [
    (["p"], .directory), (["p", "tsconfig.json"], .file (Chars.utf8 "\x7b\x7d")),
    (["p", "a.ts"], .file (Chars.utf8 "a();\n")),
    (["q"], .directory), (["q", "b.ts"], .file (Chars.utf8 "b();\n"))]
  here := ["p"]

def batchOptions : Options :=
  { Options.initial with outDir := some "/o", files := ["a.ts", "/q/b.ts"] }

def batchSession : Session := ⟨batchDisk, [], []⟩

theorem isTree_batchDisk : batchDisk.IsTree := by
  refine Disk.isTree_of_nodes (by simp [Disk.LinkFree, batchDisk]) ?_
  decide +kernel

theorem exists_project_batch :
    ∃ project, Project.create batchSession.setting batchDisk (.file "tsconfig.json")
        (.string ".js") = .ok project ∧ project.config.directory = ("/p" : Text) ∧
      ∃ delivery : Delivery (batchSession.opened batchOptions) plainGrammar batchOptions ⟨false⟩
          project [] "a.ts",
        delivery.conversion.text = ("a();\n" : Chars) := by
  have run : (Project.create batchSession.setting batchDisk (.file "tsconfig.json")
      (.string ".js")).toOption.map (fun project =>
        (project.config.directory,
          ((batchSession.opened batchOptions).conversionBy plainGrammar project "a.ts").toOption.map
            (·.text),
          ((batchSession.opened batchOptions).convertFileBy plainGrammar batchOptions ⟨false⟩
            project ⟨0, 0⟩ "a.ts").2.toOption)) =
      some (("/p" : Text), some ("a();\n" : Chars), some ⟨0, 0⟩) := by
    decide +kernel
  cases hcreate : Project.create batchSession.setting batchDisk (.file "tsconfig.json")
      (.string ".js") with
  | error fault =>
    rw [hcreate] at run
    cases run
  | ok project =>
    rw [hcreate] at run
    simp only [Except.toOption, Option.map_some, Option.some_inj, Prod.mk.injEq] at run
    obtain ⟨hdirectory, htext, hrun⟩ := run
    cases hconverted :
        (batchSession.opened batchOptions).conversionBy plainGrammar project "a.ts" with
    | error fault =>
      rw [hconverted] at htext
      cases htext
    | ok conversion =>
      rw [hconverted] at htext
      cases hfile : (batchSession.opened batchOptions).convertFileBy plainGrammar batchOptions
          ⟨false⟩ project ⟨0, 0⟩ "a.ts" with
      | mk next result =>
        rw [hfile] at hrun
        cases result with
        | error escape => cases hrun
        | ok tally =>
          exact ⟨project, rfl, hdirectory,
            ⟨_, _, _, _, conversion, rfl, hconverted, hfile⟩, Option.some.inj htext⟩

def linkedDisk : Disk where
  nodes := [
    (["p"], .directory), (["p", "tsconfig.json"], .file (Chars.utf8 "\x7b\x7d")),
    (["p", "a.ts"], .file (Chars.utf8 "a();\n")), (["p", "b.ts"], .file (Chars.utf8 "b();\n")),
    (["o"], .directory), (["o", "a.ts"], .link "b.ts")]
  here := ["p"]

end Relink.Command.Session
