import Relink.Proofs.Path.Drive
import Relink.Proofs.Resolution
import Relink.Storage.Memory

namespace Relink

open Path.Windows (IsLocal ofSlashes ofSlashes_append ofSlashes_inj)

def Memory.onDrive (memory : Memory) : Memory where
  files := memory.files.map fun (path, text) => (ofSlashes path, text)
  directories := memory.directories.map ofSlashes
  others := memory.others.map ofSlashes
  forbidden := memory.forbidden.map ofSlashes

def Memory.paths (memory : Memory) : List Text :=
  memory.files.map (·.1) ++ memory.directories ++ memory.others ++ memory.forbidden

/-- A storage that holds on the drive what another one holds. -/
def Storage.Mirrors (drive storage : Storage) : Prop :=
  ∀ path, .char '\\' ∉ path → drive.entry? (ofSlashes path) = storage.entry? path

namespace Memory

variable {memory : Memory} {path : Text}

theorem mem_map_ofSlashes {paths : List Text} (hpaths : ∀ other ∈ paths, .char '\\' ∉ other)
    (h : .char '\\' ∉ path) : ofSlashes path ∈ paths.map ofSlashes ↔ path ∈ paths := by
  rw [List.mem_map]
  constructor
  · rintro ⟨other, hother, heq⟩
    rwa [← (ofSlashes_inj (hpaths other hother) h).1 heq]
  · intro hmem
    exact ⟨path, hmem, rfl⟩

theorem get?_map_ofSlashes {files : Fields Text} (hfiles : ∀ file ∈ files, .char '\\' ∉ file.1)
    (h : .char '\\' ∉ path) :
    Fields.get? (files.map fun (path, text) => (ofSlashes path, text))
      (ofSlashes path) = files.get? path := by
  induction files with
  | nil => rfl
  | cons file files ih =>
    obtain ⟨hfile, hfiles⟩ := List.forall_mem_cons.1 hfiles
    have hrest := ih hfiles
    have hinj := ofSlashes_inj hfile h
    simp only [Fields.get?, List.map_cons, List.find?_cons, hinj] at hrest ⊢
    split
    · rfl
    · exact hrest

theorem mirrors (h : ∀ path ∈ memory.paths, .char '\\' ∉ path) :
    memory.onDrive.storage.Mirrors memory.storage := by
  intro path hpath
  simp only [paths, List.forall_mem_append, List.forall_mem_map] at h
  obtain ⟨⟨⟨hfiles, hdirectories⟩, hothers⟩, hforbidden⟩ := h
  have hfile := get?_map_ofSlashes hfiles hpath
  simp only [Storage.entry?, storage, stat, onDrive, mem_map_ofSlashes hforbidden hpath,
    mem_map_ofSlashes hdirectories hpath, mem_map_ofSlashes hothers hpath, hfile]
  by_cases hforbidden : path ∈ memory.forbidden
  · rw [if_pos hforbidden, if_pos hforbidden]
    rfl
  · rw [if_neg hforbidden, if_neg hforbidden]

end Memory

theorem Storage.Mirrors.isDirectory {drive storage : Storage} (mirrors : drive.Mirrors storage)
    {path : Text} (h : .char '\\' ∉ path) :
    drive.isDirectory (ofSlashes path) = storage.isDirectory path := by
  rw [Storage.isDirectory, Storage.isDirectory, mirrors path h]

theorem Storage.Mirrors.isFile {drive storage : Storage} (mirrors : drive.Mirrors storage)
    {path : Text} (h : .char '\\' ∉ path) :
    drive.isFile (ofSlashes path) = storage.isFile path := by
  rw [Storage.isFile, Storage.isFile, mirrors path h]

def Resolution.onDrive (resolution : Resolution) : Resolution :=
  { resolution with
    path := ofSlashes resolution.path
    probed := resolution.probed.map ofSlashes }

theorem Extension.isLocal (extension : Extension) :
    IsLocal ("index" ++ extension.text) ∧ .char '/' ∉ ("index" ++ extension.text : Text) ∧
      IsLocal extension.text := by
  cases extension <;>
    exact ⟨⟨by decide, by decide, by decide⟩, by decide, by decide, by decide, by decide⟩

namespace Resolution

variable {drive storage : Storage} {candidate : Text} {extension : Extension}

theorem append_ofSlashes {path ending : Text} (h : .char '/' ∉ ending) :
    ofSlashes path ++ ending = ofSlashes (path ++ ending) := by
  rw [ofSlashes_append, Path.Windows.backslashes_eq_self h]

theorem stem?_ofSlashes (path : Text) (extension : Extension) :
    stem? (ofSlashes path) extension.text =
      (stem? path extension.text).map ofSlashes := by
  have hslash := extension.slash_not_mem_text
  cases hstem : stem? path extension.text with
  | some stem =>
    rw [stem?_eq_some_iff] at hstem
    rw [hstem, ← append_ofSlashes hslash]
    exact stem?_eq_some_iff.2 rfl
  | none =>
    rw [stem?_eq_none_iff] at hstem
    refine stem?_eq_none_iff.2 ?_
    rwa [Path.Windows.suffix_ofSlashes_iff extension.isLocal.2.2 hslash]

theorem ofFile_onDrive {path : Text} (h : .char '\\' ∉ path) (hslash : .char '/' ∈ path)
    (extension : Extension) (probed : List Text) :
    ofFile .windows (ofSlashes path) extension.text (probed.map ofSlashes) =
      (ofFile .posix path extension.text probed).onDrive := by
  have hdeclaration (root : Text) :
      (".d" : Text) <:+ ofSlashes root ↔ (".d" : Text) <:+ root :=
    Path.Windows.suffix_ofSlashes_iff ⟨by decide, by decide, by decide⟩ (by decide)
  have hposix : Flavour.posix.splitExtension path =
      ((Path.Posix.splitExtension path).1, (Path.Posix.splitExtension path).2) := rfl
  rw [ofFile_eq .windows (Path.Windows.splitExtension_ofSlashes h hslash), ofFile_eq .posix hposix,
    append_ofSlashes extension.slash_not_mem_text, apply_ite Resolution.onDrive]
  simp only [hdeclaration]
  rfl

theorem resolve_onDrive (mirrors : drive.Mirrors storage) (h : .char '\\' ∉ candidate)
    (hslash : .char '/' ∈ candidate) :
    resolve .windows drive (ofSlashes candidate) extension =
      (resolve .posix storage candidate extension).onDrive := by
  obtain ⟨hindex, hname, hlocal⟩ := extension.isLocal
  have hts : (.char '/' ∉ (".ts" : Text)) ∧ .char '\\' ∉ candidate ++ ".ts" := by simp [h]
  have htsx : (.char '/' ∉ (".tsx" : Text)) ∧ .char '\\' ∉ candidate ++ ".tsx" := by simp [h]
  have hext : .char '\\' ∉ candidate ++ extension.text := by simp [h, hlocal.noBackslash]
  simp only [resolve, append_ofSlashes hts.1, append_ofSlashes htsx.1,
    append_ofSlashes extension.slash_not_mem_text, mirrors.isDirectory h, mirrors.isFile hts.2,
    mirrors.isFile htsx.2, mirrors.isFile h, mirrors.isFile hext, stem?_ofSlashes,
    apply_ite Resolution.onDrive]
  have hindexed : Flavour.windows.join (ofSlashes candidate) ("index" ++ extension.text) =
      ofSlashes (Path.Posix.join candidate ("index" ++ extension.text)) :=
    Path.Windows.join_ofSlashes_name h hindex hname
  have hfile := ofFile_onDrive h hslash extension
    [candidate, candidate ++ ".ts", candidate ++ ".tsx"]
  simp only [List.map_cons, List.map_nil] at hfile
  rw [hindexed, hfile]
  cases hstem : stem? candidate extension.text with
  | none =>
    simp only [Option.map_none, apply_ite Resolution.onDrive]
    rfl
  | some stem =>
    have hcandidate := stem?_eq_some_iff.1 hstem
    have hstemTs : .char '\\' ∉ stem ++ ".ts" := by simp [hcandidate] at h ⊢; exact h.1
    have hstemTsx : .char '\\' ∉ stem ++ ".tsx" := by simp [hcandidate] at h ⊢; exact h.1
    simp only [Option.map_some, append_ofSlashes hts.1, append_ofSlashes htsx.1,
      mirrors.isFile hstemTs, mirrors.isFile hstemTsx, apply_ite Resolution.onDrive]
    rfl

end Resolution

end Relink
