import Relink.Proofs.Config.Chain
import Relink.Proofs.Json.Distinct
import Relink.Proofs.Path.Absolute
import Relink.Proofs.Path.Parts

namespace Relink.Config

variable {disk : Disk} {path : Path.Parts} {options : Fields Json}

structure Source where
  path : Path.Parts
  options : Fields Json

/-- The files from a path on, each extending the next and the last one none. -/
inductive Lineage (disk : Disk) : Path.Parts → List Source → Prop
  | alone {path : Path.Parts} {contents : Json} {options : Fields Json}
      (checked : Checked disk path contents options)
      (last : parentOf path (contents.field? "extends") = .ok none) :
      Lineage disk path [⟨path, options⟩]
  | extending {path parent : Path.Parts} {contents : Json} {options : Fields Json}
      {sources : List Source} (checked : Checked disk path contents options)
      (extended : parentOf path (contents.field? "extends") = .ok (some parent))
      (h : Lineage disk parent sources) : Lineage disk path (⟨path, options⟩ :: sources)

/-- The first of some files that sets an option, and the value that it has there. -/
def declared? (sources : List Source) (name : Text) : Option (Path.Parts × Json) :=
  sources.findSome? fun source => (source.options.get? name).map (source.path, ·)

/-- Each option of a configuration is that of the first file that sets it, or stands for no
value. -/
structure Inherits (sources : List Source) (config : Config) : Prop where
  target :
    match declared? sources "target" with
    | none => config.target = some "latest"
    | some (_, value) => value = config.target.elim .null .string
  baseUrl :
    match declared? sources "baseUrl" with
    | none => config.baseUrl = none
    | some (declaring, value) => ∃ url, value = .string url ∧
        config.baseUrl = some (Path.Posix.normalize (Path.Posix.join declaring.parent.toText url))
  paths :
    match declared? sources "paths" with
    | none => config.paths = []
    | some (_, value) => value = .object config.paths ∨ value = .null ∧ config.paths = []

theorem field?_distinct {contents value : Json} {name : Text} (h : contents.Distinct)
    (hvalue : contents.field? name = some value) : value.Distinct := by
  cases h with
  | object names fields => exact fields _ (Fields.mem_of_get? hvalue)
  | _ => cases hvalue

theorem check_eq_ok {source : Text} {value : Json} (h : check source value = .ok options) :
    value = .object options ∧ checkPaths source (options.get? "paths") = .ok () ∧
      checkText source "target" (options.get? "target") = .ok () := by
  unfold check at h
  split at h
  · obtain ⟨_, hpaths, h⟩ := bind_eq_ok h
    obtain ⟨_, -, h⟩ := bind_eq_ok h
    obtain ⟨_, htarget, h⟩ := bind_eq_ok h
    cases h
    exact ⟨rfl, hpaths, htarget⟩
  · cases h

theorem readObject_eq_ok {contents : Json} (h : readObject disk path = .ok contents) :
    contents.Distinct := by
  unfold readObject at h
  dsimp only at h
  split at h
  · split at h <;> cases h
  · cases h
  · split at h
    · cases h
    · next hparse =>
      cases h
      exact Json.distinct_of_parse hparse
    · cases h

theorem Checked.nodup {contents : Json} (h : Checked disk path contents options) :
    options.names.Nodup := by
  obtain ⟨hoptions, -⟩ := check_eq_ok h.check
  have distinct : Json.Distinct (.object options) := by
    rw [← hoptions]
    cases hfield : contents.field? "compilerOptions" with
    | none => exact .object .nil (by simp)
    | some value => exact field?_distinct (readObject_eq_ok h.read) hfield
  cases distinct with
  | object names _ => exact names

theorem read_eq_ok {file : File} (h : File.read disk path = .ok file) :
    ∃ contents options, Checked disk path contents options ∧
      settleBase path options = .ok file.options ∧
      parentOf path (contents.field? "extends") = .ok file.parent? := by
  obtain ⟨contents, hread, h⟩ := bind_eq_ok h
  obtain ⟨options, hcheck, h⟩ := bind_eq_ok h
  obtain ⟨settled, hsettled, h⟩ := bind_eq_ok h
  obtain ⟨parent?, hparent, h⟩ := bind_eq_ok h
  cases h
  exact ⟨contents, options, ⟨hread, mapError_eq_ok.1 hcheck⟩, hsettled, hparent⟩

def settled (path : Path.Parts) (name : Text) : Json → Json
  | .string url =>
    if name = "baseUrl" then
      .string (Path.Posix.normalize (Path.Posix.join path.parent.toText url))
    else .string url
  | value => value

theorem settled_of_ne {name : Text} (h : name ≠ "baseUrl") (path : Path.Parts) (value : Json) :
    settled path name value = value := by
  cases value with
  | string url => exact if_neg h
  | _ => rfl

theorem settleBase_eq_ok {put : Fields Json} (h : settleBase path options = .ok put)
    (names : options.names.Nodup) : put.names.Nodup ∧
      (∀ name, put.get? name = (options.get? name).map (settled path name)) ∧
      ∀ value, options.get? "baseUrl" = some value → ∃ url, value = .string url := by
  unfold settleBase at h
  split at h
  · next hnone =>
    cases h
    refine ⟨names, ?_, ?_⟩
    · intro name
      by_cases hname : name = "baseUrl"
      · rw [hname, hnone]
        rfl
      · rw [show settled path name = id from funext (settled_of_ne hname path), Option.map_id_fun]
        rfl
    · intro value hvalue
      cases hnone.symm.trans hvalue
  · next url hurl =>
    cases h
    refine ⟨Fields.nodup_names_put names _ _, ?_, ?_⟩
    · intro name
      rw [Fields.get?_put]
      split_ifs with hname
      · rw [hname, hurl, Option.map_some, settled, if_pos rfl]
      · rw [show settled path name = id from funext (settled_of_ne hname path), Option.map_id_fun]
        rfl
    · intro value hvalue
      cases hurl.symm.trans hvalue
      exact ⟨url, rfl⟩
  · cases h

structure Settles (file : File) (source : Source) : Prop where
  names : file.options.names.Nodup
  value : ∀ name, file.options.get? name = (source.options.get? name).map (settled source.path name)

def Source.Sound (disk : Disk) (source : Source) : Prop :=
  ∃ contents, Checked disk source.path contents source.options ∧
    ∃ put, settleBase source.path source.options = .ok put

theorem get?_merged {files : List File} {sources : List Source}
    (h : List.Forall₂ Settles files sources) (name : Text) :
    (merged files).get? name =
      (declared? sources name).map fun declared => settled declared.1 name declared.2 := by
  induction h with
  | nil => rfl
  | @cons file source files sources settles _ ih =>
    change (Fields.merge (merged files) file.options).get? name = _
    rw [Fields.get?_merge settles.names, settles.value, ih, declared?, declared?,
      List.findSome?_cons]
    cases source.options.get? name <;> rfl

theorem exists_lineage {reads : Nat} {seen : List Text} {files : List File}
    (h : chainFrom disk reads seen path = .ok files) :
    ∃ sources, Lineage disk path sources ∧ List.Forall₂ Settles files sources ∧
      ∀ source ∈ sources, source.Sound disk := by
  induction reads generalizing seen path files with
  | zero => cases h
  | succ reads ih =>
    obtain ⟨real, known⟩ : ∃ real, identity disk path = .ok real := by
      rw [chainFrom] at h
      obtain ⟨real, known, -⟩ := bind_eq_ok h
      exact ⟨real, known⟩
    rw [chainFrom_succ known] at h
    split at h
    · cases h
    obtain ⟨file, hread, h⟩ := bind_eq_ok h
    obtain ⟨contents, options, checked, hsettled, hparent⟩ := read_eq_ok hread
    obtain ⟨names, value, -⟩ := settleBase_eq_ok hsettled checked.nodup
    split at h
    · next hnone =>
      cases h
      rw [hnone] at hparent
      refine ⟨[⟨path, options⟩], .alone checked hparent, .cons ⟨names, value⟩ .nil, ?_⟩
      rw [List.forall_mem_singleton]
      exact ⟨contents, checked, _, hsettled⟩
    · next parent hsome =>
      rw [hsome] at hparent
      obtain ⟨more, hmore, h⟩ := bind_eq_ok h
      cases h
      obtain ⟨sources, lineage, settles, sound⟩ := ih hmore
      exact ⟨⟨path, options⟩ :: sources, .extending checked hparent lineage,
        .cons ⟨names, value⟩ settles,
          List.forall_mem_cons.2 ⟨⟨contents, checked, _, hsettled⟩, sound⟩⟩

theorem rooted_parentOf {parent : Path.Parts} {value? : Option Json} (h : path.Rooted)
    (hparent : parentOf path value? = .ok (some parent)) : parent.Rooted := by
  unfold parentOf at hparent
  split at hparent
  · cases hparent
  · next text =>
    have appended := h.parent.append text
    dsimp only at hparent
    split at hparent
    · cases hparent
    split at hparent
    · cases hparent
      exact appended
    split at hparent
    · next hrenamed =>
      cases hparent
      exact appended.withSuffix? hrenamed
    · cases hparent
  · split at hparent <;> cases hparent

theorem Lineage.rooted {sources : List Source} (lineage : Lineage disk path sources)
    (h : path.Rooted) : ∀ source ∈ sources, source.path.Rooted := by
  induction lineage with
  | alone checked last =>
    rw [List.forall_mem_singleton]
    exact h
  | extending checked extended _ ih =>
    exact List.forall_mem_cons.2 ⟨h, ih (rooted_parentOf h extended)⟩

theorem rooted_rootPath (disk : Disk) (start : Text) : (rootPath disk start).Rooted := by
  apply Path.Parts.rooted_ofText
  apply Path.Posix.isAbsolute_normalize
  split
  · next h => exact h
  · exact Path.Posix.isAbsolute_join rfl

theorem exists_source_of_declared? {sources : List Source} {name : Text}
    {declared : Path.Parts × Json} (h : declared? sources name = some declared) :
    ∃ source ∈ sources, source.path = declared.1 ∧ source.options.get? name = some declared.2 := by
  obtain ⟨source, hsource, h⟩ := List.exists_of_findSome?_eq_some h
  obtain ⟨value, hvalue, rfl⟩ := Option.map_eq_some_iff.1 h
  exact ⟨source, hsource, rfl, hvalue⟩

theorem baseDirectory_eq {config : Config}
    (h : ∀ url, config.baseUrl = some url → ∃ path, Path.Posix.isAbsolute path = true ∧
      url = Path.Posix.normalize path) :
    config.baseDirectory .posix = config.baseUrl.getD config.directory := by
  unfold baseDirectory
  split
  · next hnone => rw [hnone, Option.getD_none]
  · next url hsome =>
    obtain ⟨path, habsolute, rfl⟩ := h url hsome
    rw [hsome, Option.getD_some]
    simp only [Flavour.normalize, Flavour.join]
    rw [Path.Posix.join, if_pos (Path.Posix.isAbsolute_normalize habsolute),
      Path.Posix.normalize_normalize habsolute]

theorem checkPaths_eq_ok {source : Text} {value? : Option Json}
    (h : checkPaths source value? = .ok ()) :
    value? = none ∨ value? = some .null ∨ ∃ entries, value? = some (.object entries) := by
  unfold checkPaths at h
  split at h <;> simp_all

section Options

variable {files : List File} {sources : List Source} (settles : List.Forall₂ Settles files sources)
  (sound : ∀ source ∈ sources, source.Sound disk) (directory : Text)

include settles sound

theorem inherits_target :
    match declared? sources "target" with
    | none => (ofOptions (merged files) directory).target = some "latest"
    | some (_, value) =>
      value = (ofOptions (merged files) directory).target.elim .null .string := by
  have hmerged := get?_merged settles "target"
  simp only [ofOptions]
  split
  · next hnone =>
    rw [hmerged, hnone]
    rfl
  · next declaring value hsome =>
    obtain ⟨source, hsource, -, hvalue⟩ := exists_source_of_declared? hsome
    obtain ⟨contents, checked, -⟩ := sound source hsource
    obtain ⟨-, -, htarget⟩ := check_eq_ok checked.check
    rw [hvalue] at htarget
    rw [hmerged, hsome, Option.map_some, settled_of_ne (by decide)]
    obtain hnone | hnull | ⟨text, htext⟩ := checkText_eq_ok htarget
    · cases hnone
    · cases hnull
      rfl
    · cases htext
      rfl

theorem inherits_paths :
    match declared? sources "paths" with
    | none => (ofOptions (merged files) directory).paths = []
    | some (_, value) => value = .object (ofOptions (merged files) directory).paths ∨
        value = .null ∧ (ofOptions (merged files) directory).paths = [] := by
  have hmerged := get?_merged settles "paths"
  simp only [ofOptions]
  split
  · next hnone =>
    rw [hmerged, hnone]
    rfl
  · next declaring value hsome =>
    obtain ⟨source, hsource, -, hvalue⟩ := exists_source_of_declared? hsome
    obtain ⟨contents, checked, -⟩ := sound source hsource
    obtain ⟨-, hpaths, -⟩ := check_eq_ok checked.check
    rw [hvalue] at hpaths
    rw [hmerged, hsome, Option.map_some, settled_of_ne (by decide)]
    obtain hnone | hnull | ⟨entries, hentries⟩ := checkPaths_eq_ok hpaths
    · cases hnone
    · cases hnull
      exact .inr ⟨rfl, rfl⟩
    · cases hentries
      exact .inl rfl

theorem inherits_baseUrl :
    match declared? sources "baseUrl" with
    | none => (ofOptions (merged files) directory).baseUrl = none
    | some (declaring, value) => ∃ url, value = .string url ∧
        (ofOptions (merged files) directory).baseUrl =
          some (Path.Posix.normalize (Path.Posix.join declaring.parent.toText url)) := by
  have hmerged := get?_merged settles "baseUrl"
  simp only [ofOptions]
  split
  · next hnone =>
    rw [hmerged, hnone]
    rfl
  · next declaring value hsome =>
    obtain ⟨source, hsource, -, hvalue⟩ := exists_source_of_declared? hsome
    obtain ⟨contents, checked, put, hput⟩ := sound source hsource
    obtain ⟨url, rfl⟩ := (settleBase_eq_ok hput checked.nodup).2.2 _ hvalue
    refine ⟨url, rfl, ?_⟩
    rw [hmerged, hsome, Option.map_some, settled, if_pos rfl]
    rfl

end Options

/-- A configuration that is loaded has, for each option, the value of the first file of the chain
that sets it; its base directory is the base that is set, or else the directory of the file it is
loaded from. -/
theorem load_inherits {start : Text} {config : Config} (h : load disk start = .ok config) :
    ∃ sources, Lineage disk (rootPath disk start) sources ∧ Inherits sources config ∧
      config.directory = (rootPath disk start).parent.toText ∧
      config.baseDirectory .posix = config.baseUrl.getD config.directory := by
  obtain ⟨files, hchain, h⟩ := bind_eq_ok h
  cases h
  obtain ⟨sources, lineage, settles, sound⟩ := exists_lineage hchain
  have base := inherits_baseUrl settles sound (rootPath disk start).parent.toText
  refine ⟨sources, lineage, ⟨inherits_target settles sound _, base,
    inherits_paths settles sound _⟩, rfl, baseDirectory_eq ?_⟩
  intro url hurl
  split at base
  · rw [base] at hurl
    cases hurl
  · next declaring value hsome =>
    obtain ⟨written, -, hbase⟩ := base
    obtain ⟨source, hsource, rfl, -⟩ := exists_source_of_declared? hsome
    rw [hbase] at hurl
    cases hurl
    have rooted := lineage.rooted (rooted_rootPath disk start) source hsource
    exact ⟨_, Path.Posix.isAbsolute_join (Path.Parts.isAbsolute_toText rooted.parent), rfl⟩

def sharedDisk : Disk where
  nodes := [
    (["p"], .directory),
    (["p", "tsconfig.json"], .file (Chars.utf8 <|
      "\x7b \"extends\": \"../shared/base\", " ++
        "\"compilerOptions\": \x7b \"target\": \"es2020\", \"paths\": null \x7d \x7d")),
    (["shared"], .directory),
    (["shared", "base.json"], .file (Chars.utf8 <|
      "\x7b \"compilerOptions\": \x7b \"target\": \"es5\", \"baseUrl\": \"src\", " ++
        "\"paths\": \x7b \"@lib\": [\"lib\"] \x7d \x7d \x7d"))]
  here := ["p"]

theorem load_inherits_shared : ∃ config, load sharedDisk "tsconfig.json" = .ok config ∧
    config.target = some ("es2020" : Text) ∧ config.baseUrl = some ("/shared/src" : Text) ∧
    ∃ sources, Lineage sharedDisk (rootPath sharedDisk "tsconfig.json") sources ∧
      Inherits sources config ∧
      config.directory = (rootPath sharedDisk "tsconfig.json").parent.toText ∧
      config.baseDirectory .posix = config.baseUrl.getD config.directory := by
  have loaded : (load sharedDisk "tsconfig.json").toOption.map (fun config =>
      (config.target, config.baseUrl)) =
        some (some ("es2020" : Text), some ("/shared/src" : Text)) := by
    decide +kernel
  cases hload : load sharedDisk "tsconfig.json" with
  | error stop =>
    rw [hload] at loaded
    cases loaded
  | ok config =>
    rw [hload] at loaded
    obtain ⟨htarget, hbase⟩ := Prod.mk.inj (Option.some.inj loaded)
    exact ⟨config, rfl, htarget, hbase, load_inherits hload⟩

end Relink.Config
