import Relink.Project
import Relink.Proofs.Alias
import Relink.Proofs.Config.Cycle

/-!
The two ways to set up a project: from a configuration file, and from options with the directory
that the file is in. Both accept the same options and come to the same project, though the base of a
file is made absolute before it is joined and that of options is joined as it is.
-/

namespace Relink

open AliasTable (IsSingle)
open Relink.Path (IsName)
open Relink.Path.Posix (isAbsolute join normalize)

variable {disk : Disk} {start directory name : Text} {contents : Json} {options : Fields Json}

namespace Config

/-- The options that count are absent or have their form, and every value of the paths is of a
kind. -/
structure Formed (each : Json → Prop) (options : Fields Json) : Prop where
  target : options.get? "target" = none ∨ options.get? "target" = some .null ∨
    ∃ text, options.get? "target" = some (.string text)
  baseUrl : options.get? "baseUrl" = none ∨ ∃ url, options.get? "baseUrl" = some (.string url)
  paths : options.get? "paths" = none ∨ options.get? "paths" = some .null ∨
    ∃ entries, options.get? "paths" = some (.object entries) ∧ ∀ entry ∈ entries, each entry.2

structure Agrees (config other : Config) : Prop where
  target : config.target = other.target
  paths : config.paths = other.paths
  directory : config.directory = other.directory
  base : config.baseDirectory .posix = other.baseDirectory .posix

theorem checkText_eq_ok_iff {source name : Text} {value? : Option Json} :
    checkText source name value? = .ok () ↔
      value? = none ∨ value? = some .null ∨ ∃ text, value? = some (.string text) := by
  refine ⟨checkText_eq_ok, ?_⟩
  rintro (rfl | rfl | ⟨text, rfl⟩) <;> rfl

theorem checkPaths_eq_ok_iff {source : Text} {value? : Option Json} :
    checkPaths source value? = .ok () ↔ value? = none ∨ value? = some .null ∨
      ∃ entries, value? = some (.object entries) ∧ ∀ entry ∈ entries, isTexts entry.2 = true := by
  constructor
  · intro h
    obtain hnone | hnull | ⟨entries, rfl⟩ := checkPaths_eq_ok h
    · exact .inl hnone
    · exact .inr (.inl hnull)
    · refine .inr (.inr ⟨entries, rfl, ?_⟩)
      simp only [checkPaths] at h
      split at h
      · cases h
      · next hnone => simpa using hnone
  · rintro (rfl | rfl | ⟨entries, rfl, htexts⟩)
    · rfl
    · rfl
    · have hnone : (entries.find? fun entry => !isTexts entry.2) = none := by simpa using htexts
      simp only [checkPaths, hnone]

theorem checked_options {source : Text} {result : Fields Json}
    (h : check source (.object options) = .ok result) : result = options := by
  obtain ⟨heq, -⟩ := check_eq_ok h
  cases heq
  rfl

theorem check_eq_ok_iff (source : Text) (based : options.get? "baseUrl" ≠ some .null) :
    check source (.object options) = .ok options ↔ Formed (isTexts · = true) options := by
  constructor
  · intro h
    obtain ⟨-, hpaths, htarget⟩ := check_eq_ok h
    exact ⟨checkText_eq_ok_iff.1 htarget,
      (baseUrl_of_check h).imp_right fun hbase => hbase.resolve_left based,
      checkPaths_eq_ok_iff.1 hpaths⟩
  · rintro ⟨target, baseUrl, paths⟩
    have hpaths := (@checkPaths_eq_ok_iff source _).2 paths
    have hbase := (@checkText_eq_ok_iff source "baseUrl" _).2 (baseUrl.imp_right .inr)
    have htarget := (@checkText_eq_ok_iff source "target" _).2 target
    simp only [check, hpaths, hbase, htarget, ok_bind]
    rfl

theorem exists_fault_of_check (source : Text) (based : options.get? "baseUrl" ≠ some .null)
    (h : ¬Formed (isTexts · = true) options) :
    ∃ fault, check source (.object options) = .error fault := by
  cases hcheck : check source (.object options) with
  | error fault => exact ⟨fault, rfl⟩
  | ok result =>
    obtain rfl := checked_options hcheck
    exact absurd ((check_eq_ok_iff source based).1 hcheck) h

theorem isTexts_iff {value : Json} : isTexts value = true ↔
    ∃ items, value = .array items ∧ ∀ item ∈ items, ∃ text, item = .string text := by
  constructor
  · intro h
    unfold isTexts at h
    split at h
    · next items =>
      refine ⟨items, rfl, ?_⟩
      intro item hitem
      have htext := List.all_eq_true.1 h item hitem
      cases item with
      | string text => exact ⟨text, rfl⟩
      | _ => cases htext
    · cases h
  · rintro ⟨items, rfl, htexts⟩
    refine List.all_eq_true.2 ?_
    intro item hitem
    obtain ⟨text, rfl⟩ := htexts item hitem
    rfl

theorem isTexts_of_isSingle {value : Json} (h : IsSingle value) : isTexts value = true := by
  obtain ⟨target, rfl⟩ := h
  rfl

theorem Formed.mono {each every : Json → Prop} (h : Formed each options)
    (himp : ∀ value, each value → every value) : Formed every options where
  target := h.target
  baseUrl := h.baseUrl
  paths := by
    obtain hnone | hnull | ⟨entries, hentries, heach⟩ := h.paths
    · exact .inl hnone
    · exact .inr (.inl hnull)
    · exact .inr (.inr ⟨entries, hentries, fun entry hentry => himp _ (heach entry hentry)⟩)

theorem formed_iff {each : Json → Prop} (directory : Text) :
    Formed each options ↔ Formed (fun _ => True) options ∧
    ∀ entry ∈ (ofOptions options directory).paths, each entry.2 := by
  constructor
  · intro h
    refine ⟨h.mono fun _ _ => trivial, ?_⟩
    obtain hpaths | hpaths | ⟨entries, hpaths, heach⟩ := h.paths <;> simp only [ofOptions, hpaths]
    · simp
    · simp
    · exact heach
  · rintro ⟨⟨target, baseUrl, paths⟩, heach⟩
    refine ⟨target, baseUrl, ?_⟩
    obtain hpaths | hpaths | ⟨entries, hpaths, -⟩ := paths
    · exact .inl hpaths
    · exact .inr (.inl hpaths)
    · simp only [ofOptions, hpaths] at heach
      exact .inr (.inr ⟨entries, hpaths, heach⟩)

section

variable (hread : readObject disk (rootPath disk start) = .ok contents)
  (holds : contents.field? "compilerOptions" = some (.object options))

include hread holds

theorem load_fault {fault : Fault}
    (stops : check (rootPath disk start).toText (.object options) = .error fault) :
    load disk start = .error (.fault fault) := by
  have hfile : File.read disk (rootPath disk start) = .error (.fault fault) := by
    simp only [File.read, hread, holds, Option.getD_some, ok_bind, stops]
    rfl
  obtain ⟨real, -, known⟩ := exists_identity_of_readObject (rooted_rootPath disk start) hread
  simp only [load, loadWithin, chainFrom_succ known, if_neg List.not_mem_nil, hfile]
  rfl

theorem load_alone {put : Fields Json}
    (passes : check (rootPath disk start).toText (.object options) = .ok options)
    (settles : settleBase (rootPath disk start) options = .ok put)
    (alone : contents.field? "extends" = none) :
    load disk start = .ok (ofOptions (Fields.merge [] put)
      (rootPath disk start).parent.toText) := by
  have hfile : File.read disk (rootPath disk start) = .ok ⟨rootPath disk start, put, none⟩ := by
    have last : parentOf (rootPath disk start) (contents.field? "extends") = .ok none := by
      rw [alone]
      rfl
    simp only [File.read, hread, holds, Option.getD_some, ok_bind, passes, mapError_ok,
      settles, last]
    rfl
  obtain ⟨real, -, known⟩ := exists_identity_of_readObject (rooted_rootPath disk start) hread
  simp only [load, loadWithin, chainFrom_succ known, if_neg List.not_mem_nil, hfile]
  rfl

theorem exists_load_agrees (habsolute : isAbsolute directory = true)
    (hdirectory : (rootPath disk start).parent.toText = directory)
    (alone : contents.field? "extends" = none) (based : options.get? "baseUrl" ≠ some .null)
    (formed : Formed (isTexts · = true) options) :
    ∃ config, load disk start = .ok config ∧ config.Agrees (ofOptions options directory) := by
  have passes := (check_eq_ok_iff (rootPath disk start).toText based).2 formed
  have checked : Checked disk (rootPath disk start) contents options := by
    refine ⟨hread, ?_⟩
    rwa [holds, Option.getD_some]
  obtain ⟨hnull, -⟩ | ⟨-, put, settles⟩ := settleBase_cases (rootPath disk start) passes
  · exact absurd hnull based
  obtain ⟨names, value, -⟩ := settleBase_eq_ok settles checked.nodup
  have hget (name : Text) : (Fields.merge [] put).get? name =
      (options.get? name).map (settled (rootPath disk start) name) := by
    rw [Fields.get?_merge names, value]
    exact Option.or_none
  have hsame {name : Text} (hne : name ≠ "baseUrl") :
      (Fields.merge [] put).get? name = options.get? name := by
    rw [hget, show settled (rootPath disk start) name = id from funext (settled_of_ne hne _),
      Option.map_id_fun, id_eq]
  have hloaded := load_alone hread holds passes settles alone
  rw [hdirectory] at hloaded
  refine ⟨_, hloaded, ?_, ?_, rfl, ?_⟩
  · simp only [ofOptions, hsame (show ("target" : Text) ≠ "baseUrl" by decide)]
  · simp only [ofOptions, hsame (show ("paths" : Text) ≠ "baseUrl" by decide)]
  · obtain hbase | ⟨url, hbase⟩ := formed.baseUrl
    · simp only [baseDirectory, ofOptions, hget, hbase, Option.map_none, Option.bind_none]
    · have hsettled : settled (rootPath disk start) "baseUrl" (.string url) =
          .string (normalize (join directory url)) := by
        rw [settled, if_pos rfl, hdirectory]
      have hjoin : isAbsolute (join directory url) = true := Path.Posix.isAbsolute_join habsolute
      have hput : (ofOptions (Fields.merge [] put) directory).baseUrl =
          some (normalize (join directory url)) := by
        simp only [ofOptions, hget, hbase, Option.map_some, hsettled]
        rfl
      rw [baseDirectory_eq, hput, Option.getD_some]
      · simp only [baseDirectory, ofOptions, hbase]
        rfl
      · intro other hother
        exact ⟨_, hjoin, (Option.some.inj (hput.symm.trans hother)).symm⟩

end

theorem parent_rootPath (habsolute : isAbsolute directory = true)
    (hnormal : normalize directory = directory) (hname : IsName name) (hslash : .char '/' ∉ name)
    (hstart : disk.absolute start = join directory name) :
    (rootPath disk start).parent.toText = directory := by
  rw [rootPath, hstart, Path.Parts.parent_join habsolute hname hslash,
    Path.Parts.toText_ofText habsolute hnormal]

end Config

namespace Project

open Config (Formed isTexts)

variable {setting : Setting} {origin : Origin} {config other : Config} {extension : Json}

structure Agrees (project other : Project) : Prop where
  config : project.config.Agrees other.config
  entries : project.aliases.entries = other.aliases.entries
  extension : project.extension = other.extension

def Alike : Except Fault Project → Except Fault Project → Prop
  | .ok project, .ok other => project.Agrees other
  | .error fault, .error other => fault.message?.isSome = true ∧ other.message?.isSome = true
  | _, _ => False

theorem create_of_configure (h : configure disk origin = .ok config) (setting : Setting)
    (extension : Json) : create setting disk origin extension =
      (AliasTable.build setting.flavour (config.baseDirectory setting.flavour)
        config.paths).mapError .aliases >>= fun aliases =>
          match Extension.parse? extension with
          | some extension => .ok ⟨setting, config, aliases, extension⟩
          | none => .error (.extension extension) := by
  simp only [create, h, mapError_ok, ok_bind]
  cases AliasTable.build setting.flavour (config.baseDirectory setting.flavour) config.paths with
  | error fault => rfl
  | ok aliases => cases Extension.parse? extension <;> rfl

theorem exists_create_iff (h : configure disk origin = .ok config) :
    (∃ project, create setting disk origin extension = .ok project) ↔
      (∀ entry ∈ config.paths, IsSingle entry.2) ∧ (Extension.parse? extension).isSome = true := by
  rw [create_of_configure h, ← @AliasTable.exists_build_iff setting.flavour
    (config.baseDirectory setting.flavour)]
  cases AliasTable.build setting.flavour (config.baseDirectory setting.flavour) config.paths with
  | error fault => simp
  | ok aliases => cases Extension.parse? extension <;> simp

theorem create_notSingle {before after : Fields Json} {key : Text} {targets : List Json}
    (h : configure disk origin = .ok config)
    (hpaths : config.paths = before ++ (key, .array targets) :: after)
    (single : ∀ entry ∈ before, IsSingle entry.2) (hne : targets.length ≠ 1) :
    create setting disk origin extension = .error (.aliases (.notSingle key targets.length)) := by
  rw [create_of_configure h, hpaths, AliasTable.build_eq_error single hne]
  rfl

theorem exists_notSingle {mapping : Fields Json} (texts : ∀ entry ∈ mapping, isTexts entry.2 = true)
    (h : ¬∀ entry ∈ mapping, IsSingle entry.2) : ∃ before key targets after,
      mapping = before ++ (key, .array targets) :: after ∧
      (∀ entry ∈ before, IsSingle entry.2) ∧ targets.length ≠ 1 := by
  induction mapping with
  | nil => exact absurd (by simp) h
  | cons entry mapping ih =>
    obtain ⟨htexts, texts⟩ := List.forall_mem_cons.1 texts
    by_cases hsingle : IsSingle entry.2
    · have hrest : ¬∀ entry ∈ mapping, IsSingle entry.2 :=
        fun hrest => h (List.forall_mem_cons.2 ⟨hsingle, hrest⟩)
      obtain ⟨before, key, targets, after, rfl, single, hne⟩ := ih texts hrest
      exact ⟨entry :: before, key, targets, after, rfl,
        List.forall_mem_cons.2 ⟨hsingle, single⟩, hne⟩
    · obtain ⟨key, value⟩ := entry
      obtain ⟨targets, rfl, htargets⟩ := Config.isTexts_iff.1 htexts
      refine ⟨[], key, targets, mapping, rfl, by simp, ?_⟩
      intro hlength
      obtain ⟨target, rfl⟩ := List.length_eq_one_iff.1 hlength
      obtain ⟨text, rfl⟩ := htargets target (List.mem_singleton_self target)
      exact hsingle ⟨text, rfl⟩

theorem alike_of_agrees {origin' : Origin} (posix : setting.flavour = .posix)
    (h : configure disk origin = .ok config) (h' : configure disk origin' = .ok other)
    (agrees : config.Agrees other) (texts : ∀ entry ∈ other.paths, isTexts entry.2 = true) :
    Alike (create setting disk origin extension) (create setting disk origin' extension) := by
  by_cases hsingle : ∀ entry ∈ other.paths, IsSingle entry.2
  · obtain ⟨table, hbuild⟩ := (@AliasTable.exists_build_iff setting.flavour
      (other.baseDirectory setting.flavour) other.paths).2 hsingle
    rw [create_of_configure h, create_of_configure h', posix, agrees.base, agrees.paths, ← posix,
      hbuild]
    cases Extension.parse? extension with
    | none => exact ⟨rfl, rfl⟩
    | some extension => exact ⟨agrees, rfl, rfl⟩
  · obtain ⟨before, key, targets, after, hpaths, single, hne⟩ := exists_notSingle texts hsingle
    rw [create_notSingle h (agrees.paths.trans hpaths) single hne,
      create_notSingle h' hpaths single hne]
    exact ⟨rfl, rfl⟩

theorem configure_options (habsolute : isAbsolute directory = true)
    (hnormal : normalize directory = directory) (based : options.get? "baseUrl" ≠ some .null)
    (formed : Formed (isTexts · = true) options) :
    configure disk (.options (.object options) directory) =
      .ok (Config.ofOptions options directory) := by
  have passes := (Config.check_eq_ok_iff "<compilerOptions>" based).2 formed
  simp only [configure, Config.fromOptions, passes, ok_bind,
    Path.Posix.absolute_normal habsolute hnormal]
  rfl

def basedDisk : Disk where
  nodes := [
    (["p"], .directory),
    (["p", "tsconfig.json"], .file (Chars.utf8 <|
      "\x7b \"compilerOptions\": \x7b \"baseUrl\": \"src/.\", " ++
        "\"paths\": \x7b \"@lib/*\": [\"../lib/*\"] \x7d \x7d \x7d"))]
  here := ["p"]

def basedSetting : Setting := ⟨.posix, basedDisk.storage, "/p"⟩

theorem exists_object {contents : Json} {field name text : Text}
    (h : ((contents.field? field).bind (·.field? name)).bind (·.asText?) = some text) :
    ∃ options : Fields Json, contents.field? field = some (.object options) ∧
      options.get? name = some (.string text) := by
  obtain ⟨value, hvalue, hname⟩ := Option.bind_eq_some_iff.1 (Json.bind_asText?_eq_some.1 h)
  cases value with
  | object options => exact ⟨options, hvalue, hname⟩
  | _ => cases hname

end Project

end Relink
