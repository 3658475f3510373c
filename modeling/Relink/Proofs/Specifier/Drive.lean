import Relink.Proofs.Resolution.Drive
import Relink.Proofs.Specifier.Characters

namespace Relink

open Relink.Path (IsPortable)
open Path.Windows (IsLocal ofSlashes)
open Path.Posix (Location)

def Alias.onDrive (entry : Alias) : Alias :=
  { entry with directory := ofSlashes entry.directory }

def AliasTable.onDrive (table : AliasTable) : AliasTable := ⟨table.entries.map Alias.onDrive⟩

theorem Path.Windows.IsLocal.stripWildcard {path : Text} (h : IsLocal path) :
    IsLocal (Alias.stripWildcard path) where
  noColon hmem := h.noColon (Alias.stripWildcard_subset path hmem)
  noBackslash hmem := h.noBackslash (Alias.stripWildcard_subset path hmem)
  noShare := Alias.noShare_stripWildcard h.noShare

namespace AliasTable

variable {base : Location}

theorem ofMapping_onDrive (hbase : .char '\\' ∉ base.text) {value : Json}
    (h : ∀ target, value = .array [.string target] → IsLocal target) (key : Text) :
    Alias.ofMapping .windows (ofSlashes base.text) key value =
      (Alias.ofMapping .posix base.text key value).map Alias.onDrive := by
  unfold Alias.ofMapping
  split
  · next target =>
    have hlocal := (h target rfl).stripWildcard
    have hdirectory :=
      Path.Windows.normalize_join_ofSlashes hbase hlocal (base.root_join hlocal.noShare)
    simp only [Flavour.normalize, Flavour.join, hdirectory]
    rfl
  · rfl
  · rfl
  · rfl

theorem mapM_eq_map {α β γ ε : Type} {f : α → Except ε β} {f' : α → Except ε γ} {g : β → γ}
    {inputs : List α} (h : ∀ input ∈ inputs, f' input = (f input).map g) :
    inputs.mapM f' = (inputs.mapM f).map (List.map g) := by
  induction inputs with
  | nil => rfl
  | cons input inputs ih =>
    obtain ⟨hinput, hinputs⟩ := List.forall_mem_cons.1 h
    rw [List.mapM_cons, List.mapM_cons, hinput, ih hinputs]
    cases f input with
    | error fault => rfl
    | ok first => cases inputs.mapM f <;> rfl

theorem onDrive_ofEntries (entries : List Alias) :
    (ofEntries entries).onDrive = ofEntries (entries.map Alias.onDrive) := by
  rw [onDrive, ofEntries, ofEntries, List.map_mergeSort]
  intro a _ b _
  rfl

theorem build_onDrive (hbase : .char '\\' ∉ base.text) {mapping : Fields Json}
    (h : ∀ key target, (key, .array [.string target]) ∈ mapping → IsLocal target) :
    build .windows (ofSlashes base.text) mapping =
      (build .posix base.text mapping).map AliasTable.onDrive := by
  have hfields : ∀ field ∈ mapping, Alias.ofMapping .windows (ofSlashes base.text) field.1 field.2 =
      (Alias.ofMapping .posix base.text field.1 field.2).map Alias.onDrive := by
    intro field hmem
    apply ofMapping_onDrive hbase
    intro target htarget
    exact h field.1 target (htarget ▸ hmem)
  rw [build, build, mapM_eq_map hfields]
  cases mapping.mapM fun field => Alias.ofMapping .posix base.text field.1 field.2 with
  | error fault => rfl
  | ok entries => exact congrArg Except.ok (onDrive_ofEntries entries).symm

theorem match?_onDrive (table : AliasTable) (specifier : Text) :
    table.onDrive.match? specifier =
      (table.match? specifier).map fun (entry, rest) => (entry.onDrive, rest) := by
  rw [match?, match?, onDrive, List.findSome?_map, List.map_findSome?]
  congr 1
  funext entry
  have hrest : entry.onDrive.rest? specifier = entry.rest? specifier := rfl
  simp only [Function.comp_apply, hrest, Option.map_map]
  rfl

end AliasTable

def FileContext.onDrive (context : FileContext) : FileContext :=
  { context with
    file := ofSlashes context.file
    directory := ofSlashes context.directory
    aliases := context.aliases.onDrive }

def Miss.onDrive (miss : Miss) : Miss :=
  { miss with
    file := ofSlashes miss.file
    candidate := ofSlashes miss.candidate
    probed := miss.probed.map ofSlashes }

namespace Specifier

structure IsHome (path : Text) : Prop where
  single : Path.Posix.IsSingleRooted path
  normal : Path.Posix.normalize path = path
  portable : IsPortable path

/-- A project whose texts both flavours take for the same. No target of an alias reads as a share,
and none leads to the root. -/
structure Portable (memory : Memory) (base file : Text) (mapping : Fields Json) : Prop where
  stored : ∀ path ∈ memory.paths, IsPortable path
  baseHome : IsHome base
  fileHome : IsHome file
  targets : ∀ key target, (key, .array [.string target]) ∈ mapping →
    IsPortable target ∧ ¬("//" : Text) <+: target ∧
      Path.Posix.normalize (Path.Posix.join base (Alias.stripWildcard target)) ≠ "/"

def posixSetting (memory : Memory) (here : Text) : Setting := ⟨.posix, memory.storage, here⟩

def driveSetting (memory : Memory) (here : Text) : Setting :=
  ⟨.windows, memory.onDrive.storage, here⟩

theorem IsHome.exists_eq {path : Text} (h : IsHome path) :
    ∃ location : Location, path = location.text := by
  obtain ⟨location, hlocation⟩ := Path.Posix.exists_text_eq_normalize (h.normal.symm ▸ h.single)
  exact ⟨location, h.normal ▸ hlocation⟩

theorem portable_written : Path.WrittenIn fun c =>
    c.toNat < 0x80 ∧ c.isUpper = false ∧ c ≠ '\\' ∧ c ≠ ':' where
  dots := by
    change IsPortable "./"
    decide
  index extension := by
    change IsPortable ("/index" ++ extension.text)
    cases extension <;> decide

namespace Portable

variable {memory : Memory} {base file : Text} {mapping : Fields Json} {table : AliasTable}

theorem file_eq (portable : Portable memory base file mapping) (table : AliasTable) (here : Text)
    (extension : Extension) :
    (FileContext.of (posixSetting memory here) file table extension).file = file := by
  obtain ⟨location, hfile⟩ := portable.fileHome.exists_eq
  change Path.Posix.absolute here file = file
  rw [hfile, Location.absolute_text]

theorem isLocal (portable : Portable memory base file mapping) :
    ∀ key target, (key, .array [.string target]) ∈ mapping → IsLocal target := by
  intro key target hmem
  obtain ⟨htarget, hshare, -⟩ := portable.targets key target hmem
  exact ⟨htarget.noColon, htarget.noBackslash, hshare⟩

theorem build_eq (portable : Portable memory base file mapping) :
    AliasTable.build .windows (ofSlashes base) mapping =
      (AliasTable.build .posix base mapping).map AliasTable.onDrive := by
  obtain ⟨location, rfl⟩ := portable.baseHome.exists_eq
  exact AliasTable.build_onDrive portable.baseHome.portable.noBackslash portable.isLocal

theorem rooted (portable : Portable memory base file mapping)
    (built : AliasTable.build .posix base mapping = .ok table) (here : Text)
    (extension : Extension) :
    Rooted (posixSetting memory here) base mapping
      (FileContext.of (posixSetting memory here) file table extension) := by
  obtain ⟨location, hbase⟩ := portable.baseHome.exists_eq
  refine ⟨rfl, ⟨file, rfl⟩, ?_, ?_, built, ?_⟩
  · rw [portable.file_eq]
    exact portable.fileHome.single
  · rw [hbase]
    exact location.isAbsolute_text
  · intro entry hentry
    obtain ⟨key, target, hmem, hdirectory⟩ := (AliasTable.build_spec built).2 entry hentry
    obtain ⟨-, hshare, hroot⟩ := portable.targets key target hmem
    have hlocation := Location.normalize_eq
      (location.root_join (Alias.noShare_stripWildcard hshare))
    rw [hbase] at hroot hdirectory
    refine ⟨hdirectory ▸ hroot, ?_⟩
    rw [hdirectory, Flavour.normalize, Flavour.join, hlocation]
    exact (Location.isSingleRooted_text _).2

theorem context_onDrive (portable : Portable memory base file mapping) (table : AliasTable)
    (here here' : Text) (extension : Extension) :
    FileContext.of (driveSetting memory here') (ofSlashes file) table.onDrive extension =
      (FileContext.of (posixSetting memory here) file table extension).onDrive := by
  have hback := portable.fileHome.portable.noBackslash
  obtain ⟨location, hfile⟩ := portable.fileHome.exists_eq
  have habsolute : Path.Windows.absolute here' (ofSlashes file) = ofSlashes file := by
    rw [Path.Windows.absolute_ofSlashes here' (hfile ▸ location.root_text) hback,
      portable.fileHome.normal]
  have hposix : Path.Posix.absolute here file = file := portable.file_eq table here extension
  simp only [FileContext.of, driveSetting, posixSetting, Flavour.absolute, Flavour.dirname,
    habsolute, hposix, Path.Windows.dirname_ofSlashes hback]
  rfl

end Portable

structure Standing (context : FileContext) : Prop where
  directory : ∃ location : Location, context.directory = location.text ∧ IsPortable location.text
  aliases : ∀ entry ∈ context.aliases.entries, ∃ location : Location,
    entry.directory = location.text ∧ location.names ≠ [] ∧ IsPortable location.text

variable {memory : Memory} {context : FileContext} {here here' specifier : Text}

theorem candidate?_onDrive (standing : Standing context) (h : IsPortable specifier) :
    candidate? (driveSetting memory here') context.onDrive specifier =
      (candidate? (posixSetting memory here) context specifier).map ofSlashes := by
  unfold candidate?
  split
  · rfl
  · simp only [FileContext.onDrive, AliasTable.match?_onDrive, Option.map_map]
    cases hmatch : context.aliases.match? specifier with
    | none => rfl
    | some found =>
      obtain ⟨entry, rest⟩ := found
      obtain ⟨hmem, hcovers⟩ := AliasTable.covers_of_match? hmatch
      obtain ⟨location, hdirectory, hnames, hportable⟩ := standing.aliases entry hmem
      have hrest : .char '\\' ∉ rest := by
        intro hbackslash
        exact h.noBackslash (hcovers.1 ▸ List.mem_append_right _ hbackslash)
      have hback : .char '\\' ∉ location.text ++ rest := by simp [hportable.noBackslash, hrest]
      have hnormal : Path.Windows.normalize (ofSlashes location.text ++ rest) =
          ofSlashes (Path.Posix.normalize (location.text ++ rest)) :=
        Path.Windows.normalize_ofSlashes (location.root_text_append hnames rest) hback (by simp)
      simp only [driveSetting, posixSetting, Alias.onDrive, Flavour.normalize, Option.map_some,
        Function.comp_apply, hdirectory, hnormal]
  · next hrelative =>
    obtain ⟨location, hdirectory, hportable⟩ := standing.directory
    have hlocal : IsLocal specifier := by
      refine ⟨h.noColon, h.noBackslash, ?_⟩
      rintro ⟨rest, rfl⟩
      cases hrelative
    have hnormal := Path.Windows.normalize_join_ofSlashes hportable.noBackslash hlocal
      (location.root_join hlocal.noShare)
    simp only [driveSetting, posixSetting, FileContext.onDrive, Flavour.normalize, Flavour.join,
      hdirectory, hnormal, Option.map_some]

theorem relativeTo_onDrive {start target : Location} (hstart : IsPortable start.text)
    (htarget : IsPortable target.text) :
    relativeTo (driveSetting memory here') (ofSlashes target.text) (ofSlashes start.text) =
      relativeTo (posixSetting memory here) target.text start.text := by
  have hway : .char '\\' ∉ start.wayTo target := by
    intro hmem
    obtain hdot | hmem := Location.mem_wayTo start target hmem
    · cases hdot
    · exact htarget.noBackslash hmem
  rw [relativeTo_text rfl, relativeTo]
  simp only [driveSetting, Flavour.relative?, Path.Windows.relative?_ofSlashes here' hstart htarget,
    Path.Windows.forwardSlashes_backslashes hway]

def Target.onDrive (target : Target) : Target :=
  { target with
    candidate := ofSlashes target.candidate
    resolution := target.resolution.onDrive }

theorem emitted_onDrive {target : Target} {start path : Location}
    (hdirectory : context.directory = start.text) (hstart : IsPortable start.text)
    (hpath : target.resolution.path = path.text) (htarget : IsPortable path.text) :
    target.onDrive.emitted (driveSetting memory here') context.onDrive =
      target.emitted (posixSetting memory here) context := by
  simp only [Target.emitted, Target.onDrive, Resolution.onDrive, FileContext.onDrive,
    hdirectory, hpath]
  exact relativeTo_onDrive hstart htarget

namespace Portable

variable {base file raw : Text} {mapping : Fields Json} {table : AliasTable}

theorem standing (portable : Portable memory base file mapping)
    (built : AliasTable.build .posix base mapping = .ok table) (here : Text)
    (extension : Extension) :
    Standing (FileContext.of (posixSetting memory here) file table extension) := by
  have rooted := portable.rooted built here extension
  have hbase := portable.baseHome.portable
  have htargets := fun key target hmem => (portable.targets key target hmem).1
  constructor
  · obtain ⟨directory, hdirectory⟩ := rooted.exists_directory_eq
    refine ⟨directory, hdirectory, ?_⟩
    rw [← hdirectory, rooted.directory_eq, portable.file_eq]
    exact Text.Over.of_subset portable.fileHome.portable (Path.Posix.dirname_subset file)
  · intro entry hentry
    obtain ⟨hroot, hdouble⟩ := rooted.directory entry hentry
    obtain ⟨directory, hdirectory, hnames⟩ :=
      AliasTable.exists_directory_eq built rooted.absolute hentry hroot hdouble
    refine ⟨directory, hdirectory, hnames, ?_⟩
    rw [← hdirectory]
    exact AliasTable.directory_over portable_written built hbase htargets entry hentry

theorem exists_eq_of_candidate? (portable : Portable memory base file mapping)
    (built : AliasTable.build .posix base mapping = .ok table) (h : IsPortable specifier)
    {extension : Extension} {candidate : Text} (hcandidate : candidate? (posixSetting memory here)
      (FileContext.of (posixSetting memory here) file table extension) specifier = some candidate) :
    (∃ location : Location, candidate = location.text ∧ IsPortable location.text) ∧
    ∃ location : Location,
      (Resolution.resolve .posix memory.storage candidate extension).path = location.text ∧
        IsPortable location.text := by
  have rooted := portable.rooted built here extension
  have htargets := fun key target hmem => (portable.targets key target hmem).1
  obtain ⟨-, hnone⟩ | ⟨other, -, names, hsome⟩ := candidate?_cases rooted specifier
  · rw [hnone] at hcandidate
    cases hcandidate
  obtain rfl : other = candidate := Option.some.inj (hsome.symm.trans hcandidate)
  have hfile : IsPortable (FileContext.of (posixSetting memory here) file table
    extension).file := by
    rw [portable.file_eq]
    exact portable.fileHome.portable
  have hother : IsPortable other :=
    names.over portable_written rooted hfile portable.baseHome.portable htargets h
  obtain ⟨location, hlocation⟩ := names.exists_eq rooted
  obtain ⟨path, hpath⟩ := names.exists_resolve_eq rooted
  refine ⟨⟨location, hlocation, hlocation ▸ hother⟩, path, hpath, ?_⟩
  rw [← hpath]
  exact Text.Over.resolve portable_written hother

theorem target?_onDrive (portable : Portable memory base file mapping)
    (built : AliasTable.build .posix base mapping = .ok table) (h : IsPortable raw)
    (here here' : Text) (extension : Extension) :
    target? (driveSetting memory here')
        (FileContext.of (posixSetting memory here) file table extension).onDrive raw =
      (target? (posixSetting memory here)
        (FileContext.of (posixSetting memory here) file table extension) raw).map
          Target.onDrive := by
  have hunquote : IsPortable (Literal.unquote raw) :=
    Text.Over.of_subset h (Literal.unquote_subset raw)
  rw [target?, target?, candidate?_onDrive (portable.standing built here extension) hunquote]
  cases hcandidate : candidate? (posixSetting memory here)
    (FileContext.of (posixSetting memory here) file table extension) (Literal.unquote raw) with
  | none => rfl
  | some candidate =>
    obtain ⟨⟨location, rfl, hlocation⟩, -⟩ :=
      portable.exists_eq_of_candidate? built hunquote hcandidate
    have mirrors : memory.onDrive.storage.Mirrors memory.storage :=
      Memory.mirrors fun path hpath => (portable.stored path hpath).noBackslash
    have hresolve : Resolution.resolve .windows memory.onDrive.storage (ofSlashes location.text)
        extension = (Resolution.resolve .posix memory.storage location.text extension).onDrive :=
      Resolution.resolve_onDrive mirrors hlocation.noBackslash List.mem_cons_self
    exact congrArg (fun resolution => some (Target.mk _ (ofSlashes location.text) resolution))
      hresolve

end Portable

/-- A portable project is converted on a drive as it is with slashes: the table of its aliases is
built or refused alike, the same specifiers are written, and the misses are those of the paths on
the drive. -/
theorem rewrite_onDrive {base file : Text} {mapping : Fields Json}
    (portable : Portable memory base file mapping) :
    AliasTable.build .windows (ofSlashes base) mapping =
      (AliasTable.build .posix base mapping).map AliasTable.onDrive ∧
    ∀ table, AliasTable.build .posix base mapping = .ok table →
      ∀ (here here' : Text) (extension : Extension) (raw : Text), IsPortable raw →
        let posix := posixSetting memory here
        let drive := driveSetting memory here'
        let context := FileContext.of posix file table extension
        let context' := FileContext.of drive (ofSlashes file) table.onDrive extension
        context' = context.onDrive ∧
        rewrite drive context' raw = rewrite posix context raw ∧
        miss? drive context' raw = (miss? posix context raw).map Miss.onDrive := by
  refine ⟨portable.build_eq, ?_⟩
  intro table built here here' extension raw hraw posix drive context context'
  have hcontext : context' = context.onDrive := portable.context_onDrive table here here' extension
  have htarget := portable.target?_onDrive built hraw here here' extension
  refine ⟨hcontext, ?_⟩
  rw [hcontext, rewrite, rewrite, miss?, miss?, htarget]
  cases hposix : target? posix context raw with
  | none => exact ⟨rfl, rfl⟩
  | some target =>
    obtain ⟨candidate, hcandidate, rfl⟩ := Option.map_eq_some_iff.1 hposix
    have hunquote : IsPortable (Literal.unquote raw) :=
      Text.Over.of_subset hraw (Literal.unquote_subset raw)
    obtain ⟨-, path, hpath, hportable⟩ := portable.exists_eq_of_candidate? built hunquote hcandidate
    obtain ⟨directory, hdirectory, hstart⟩ := (portable.standing built here extension).directory
    constructor
    · exact congrArg (Literal.quote [Literal.markOf raw])
        (emitted_onDrive hdirectory hstart hpath hportable)
    · simp only [Option.map_some, Option.bind_some]
      rw [apply_ite (Option.map Miss.onDrive)]
      rfl

def libraryMemory : Memory where
  files := [("/p/lib/a.ts", [])]
  directories := ["/p", "/p/lib", "/p/src"]
  others := []
  forbidden := ["/p/lib/a.tsx"]

theorem libraryMemory_portable : Portable libraryMemory "/p" "/p/src/x.ts" libraryMapping where
  stored := by decide
  baseHome := ⟨by unfold Path.Posix.IsSingleRooted; decide, by decide, by decide⟩
  fileHome := ⟨by unfold Path.Posix.IsSingleRooted; decide, by decide, by decide⟩
  targets := by
    intro key target h
    cases List.mem_singleton.1 h
    exact ⟨by decide, by decide, by decide⟩

theorem rewrite_onDrive_library :
    Portable libraryMemory "/p" "/p/src/x.ts" libraryMapping ∧
    AliasTable.build .posix "/p" libraryMapping = .ok libraryContext.aliases ∧
    IsPortable "'@lib/a'" ∧
    rewrite (driveSetting libraryMemory "C:\\")
      (FileContext.of (driveSetting libraryMemory "C:\\") "C:\\p\\src\\x.ts"
        libraryContext.aliases.onDrive .js) "'@lib/a'" = "'../lib/a.js'" := by
  have built : AliasTable.build .posix "/p" libraryMapping = .ok libraryContext.aliases :=
    libraryContext_rooted.built
  have hraw : IsPortable "'@lib/a'" := by decide
  refine ⟨libraryMemory_portable, built, hraw, ?_⟩
  refine ((rewrite_onDrive libraryMemory_portable).2 _ built "/" "C:\\" .js _ hraw).2.1.trans ?_
  decide

end Specifier

end Relink
