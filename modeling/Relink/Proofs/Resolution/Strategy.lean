import Relink.Proofs.Path.Windows
import Relink.Proofs.Resolution

namespace Relink

def Strategy.order : List Strategy :=
  [.directoryIndex, .sourceFile, .sourceSuffix, .existingFile, .emittedFile, .notFound]

def Flavour.isSeparator : Flavour → CodePoint → Bool
  | .posix => Path.Posix.isSeparator
  | .windows => Path.Windows.isSeparator

theorem Flavour.splitExtension_eq (flavour : Flavour) (path : Text) :
    flavour.splitExtension path = Path.splitExtension flavour.isSeparator path := by
  cases flavour <;> rfl

theorem Flavour.suffix_join_index (flavour : Flavour) (candidate : Text) (extension : Extension) :
    ("index" ++ extension.text : Text) <:+ flavour.join candidate ("index" ++ extension.text) := by
  cases flavour with
  | posix => exact Path.Posix.suffix_join candidate _
  | windows => cases extension <;> exact Path.Windows.suffix_join candidate rfl rfl

namespace Resolution

/-- A path named as a source and not as a declaration file, cut in front of its suffix. -/
structure IsSource (flavour : Flavour) (path root suffix : Text) : Prop where
  path_eq : path = root ++ suffix
  mem : suffix ∈ sourceSuffixes
  stem : Path.HasStem flavour.isSeparator root
  noDeclaration : ¬(".d" : Text) <:+ root

variable {flavour : Flavour} {storage : Storage} {candidate path ext : Text} {extension : Extension}

theorem splitExtension_source {root suffix : Text} (h : suffix ∈ sourceSuffixes) :
    (Path.HasStem flavour.isSeparator root →
      flavour.splitExtension (root ++ suffix) = (root, suffix)) ∧
    (¬Path.HasStem flavour.isSeparator root →
      flavour.splitExtension (root ++ suffix) = (root ++ suffix, [])) := by
  have hdot : flavour.isSeparator '.' = false := by cases flavour <;> rfl
  have hsuffix : ∃ rest, suffix = .char '.' :: rest ∧ .char '.' ∉ rest ∧
      rest.any flavour.isSeparator = false := by
    simp only [sourceSuffixes, List.mem_cons, List.not_mem_nil, or_false] at h
    obtain rfl | rfl | rfl | rfl := h <;> exact ⟨_, rfl, by decide, by cases flavour <;> rfl⟩
  obtain ⟨rest, rfl, hrest, hseparator⟩ := hsuffix
  rw [flavour.splitExtension_eq]
  exact Path.splitExtension_append hdot hrest (by simpa using hseparator)

theorem IsSource.ofFile_eq {root suffix : Text} (h : IsSource flavour path root suffix) (ext : Text)
    (probed : List Text) : ofFile flavour path ext probed =
      ⟨root ++ ext, .sourceSuffix, probed⟩ := by
  have hsplit := (splitExtension_source h.mem).1 h.stem
  rw [← h.path_eq] at hsplit
  rw [Resolution.ofFile_eq flavour hsplit, if_pos ⟨h.mem, h.noDeclaration⟩]

theorem ofFile_of_not_isSource (h : ∀ root suffix, ¬IsSource flavour path root suffix) (ext : Text)
    (probed : List Text) : ofFile flavour path ext probed = ⟨path, .existingFile, probed⟩ := by
  obtain ⟨hpath, -⟩ := Path.splitExtension_spec flavour.isSeparator path
  cases hsplit : Path.splitExtension flavour.isSeparator path with
  | mk root suffix =>
    rw [hsplit] at hpath
    rw [← flavour.splitExtension_eq] at hsplit
    rw [Resolution.ofFile_eq flavour hsplit]
    refine if_neg ?_
    rintro ⟨hmem, hdeclaration⟩
    refine h root suffix ⟨hpath, hmem, ?_, hdeclaration⟩
    -- Where only dots stand in front of the suffix, nothing would have been split off.
    by_contra hstem
    rw [hpath, (splitExtension_source hmem).2 hstem] at hsplit
    rw [← (Prod.mk.inj hsplit).2] at hmem
    revert hmem
    decide

theorem ofFile_cases (flavour : Flavour) (path ext : Text) (probed : List Text) :
    (∃ root suffix, IsSource flavour path root suffix ∧
      ofFile flavour path ext probed = ⟨root ++ ext, .sourceSuffix, probed⟩) ∨
    (∀ root suffix, ¬IsSource flavour path root suffix) ∧
      ofFile flavour path ext probed = ⟨path, .existingFile, probed⟩ := by
  by_cases h : ∃ root suffix, IsSource flavour path root suffix
  · obtain ⟨root, suffix, h⟩ := h
    exact .inl ⟨root, suffix, h, h.ofFile_eq ext probed⟩
  · simp only [not_exists] at h
    exact .inr ⟨h, ofFile_of_not_isSource h ext probed⟩

/-- What a strategy needs to find on disk, whatever the others would find. -/
def Applies (flavour : Flavour) (storage : Storage) (candidate ext : Text) : Strategy → Prop
  | .directoryIndex => storage.isDirectory candidate = true
  | .sourceFile =>
    storage.isFile (candidate ++ ".ts") = true ∨ storage.isFile (candidate ++ ".tsx") = true
  | .sourceSuffix =>
    storage.isFile candidate = true ∧ ∃ root suffix, IsSource flavour candidate root suffix
  | .existingFile => storage.isFile candidate = true
  | .emittedFile =>
    ¬ext <:+ candidate ∧ storage.isFile (candidate ++ ext) = true ∨
    ∃ stem, candidate = stem ++ ext ∧
      (storage.isFile (stem ++ ".ts") = true ∨ storage.isFile (stem ++ ".tsx") = true)
  | .notFound => True

def FirstApplies (flavour : Flavour) (storage : Storage) (candidate ext : Text)
    (strategy : Strategy) :
    Prop :=
  ∃ before after, Strategy.order = before ++ strategy :: after ∧
    Applies flavour storage candidate ext strategy ∧
    ∀ earlier ∈ before, ¬Applies flavour storage candidate ext earlier

/-- What stands on disk for a path that was found: the directory that it is the index of, a file of
its own, or the source that it is emitted from. -/
inductive Backed (flavour : Flavour) (storage : Storage) (candidate ext : Text) : Text → Prop
  | index : storage.isDirectory candidate = true →
      Backed flavour storage candidate ext (flavour.join candidate ("index" ++ ext))
  | file {path : Text} : storage.isFile path = true → Backed flavour storage candidate ext path
  | source {stem suffix : Text} : suffix ∈ sourceSuffixes → storage.isFile (stem ++ suffix) = true →
      Backed flavour storage candidate ext (stem ++ ext)

structure Absent (storage : Storage) (candidate ext : Text) : Prop where
  unsourced : Unsourced storage candidate
  noFile : storage.isFile candidate = false
  noStem : ∀ stem, candidate = stem ++ ext →
    storage.isFile (stem ++ ".ts") = false ∧ storage.isFile (stem ++ ".tsx") = false
  noEmitted : ¬ext <:+ candidate → storage.isFile (candidate ++ ext) = false

theorem Unsourced.not_applies (h : Unsourced storage candidate) :
    ∀ strategy ∈ [Strategy.directoryIndex, .sourceFile],
      ¬Applies flavour storage candidate ext strategy := by
  simp [Applies, h.noDirectory]
  exact ⟨h.noTs, h.noTsx⟩

theorem Unsourced.not_applies_of_noFile (h : Unsourced storage candidate)
    (hfile : storage.isFile candidate = false) :
    ∀ strategy ∈ [Strategy.directoryIndex, .sourceFile] ++ [.sourceSuffix, .existingFile],
      ¬Applies flavour storage candidate ext strategy :=
  List.forall_mem_append.2 ⟨h.not_applies, by simp [Applies, hfile]⟩

theorem Absent.not_applies (h : Absent storage candidate ext) :
    ∀ strategy ∈ [Strategy.directoryIndex, .sourceFile] ++ [.sourceSuffix, .existingFile] ++
      [.emittedFile], ¬Applies flavour storage candidate ext strategy := by
  refine List.forall_mem_append.2
    ⟨h.unsourced.not_applies_of_noFile h.noFile, List.forall_mem_singleton.2 ?_⟩
  rintro (⟨hext, hfile⟩ | ⟨stem, hstem, hfile⟩)
  · rw [h.noEmitted hext] at hfile
    cases hfile
  · obtain ⟨hts, htsx⟩ := h.noStem stem hstem
    rw [hts, htsx] at hfile
    revert hfile
    decide

theorem Unsourced.absent_of_stem (h : Unsourced storage candidate) {stem : Text}
    (hfile : storage.isFile candidate = false) (hstem : candidate = stem ++ ext)
    (hts : storage.isFile (stem ++ ".ts") = false)
    (htsx : storage.isFile (stem ++ ".tsx") = false) :
    Absent storage candidate ext where
  unsourced := h
  noFile := hfile
  noStem other hother := by
    rw [← List.append_cancel_right (hstem.symm.trans hother)]
    exact ⟨hts, htsx⟩
  noEmitted hext := absurd ⟨stem, hstem.symm⟩ hext

theorem Unsourced.absent_of_not_suffix (h : Unsourced storage candidate)
    (hfile : storage.isFile candidate = false) (hext : ¬ext <:+ candidate)
    (hemitted : storage.isFile (candidate ++ ext) = false) : Absent storage candidate ext where
  unsourced := h
  noFile := hfile
  noStem stem hstem := absurd ⟨stem, hstem.symm⟩ hext
  noEmitted _ := hemitted

namespace Outcome

variable {resolution : Resolution}

theorem backed (h : Outcome flavour storage candidate ext resolution)
    (found : resolution.found = true) :
    Backed flavour storage candidate ext resolution.path := by
  cases h with
  | directory h => exact .index h
  | source _ h | markupSource _ _ h => exact .source (by decide) h
  | file _ h =>
    obtain ⟨root, suffix, hsource, heq⟩ | ⟨-, heq⟩ := ofFile_cases flavour candidate ext _
    · rw [heq]
      exact .source hsource.mem (hsource.path_eq ▸ h)
    · rw [heq]
      exact .file h
  | stemSource _ _ hstem h | stemMarkupSource _ _ hstem _ h =>
    rw [hstem]
    exact .source (by decide) h
  | emitted _ _ _ h => exact .file h
  | stemMissing | missing => cases found

theorem suffix_or_file (h : Outcome flavour storage candidate extension.text resolution)
    (found : resolution.found = true) : extension.text <:+ resolution.path ∨
      resolution.path = candidate ∧ storage.isFile candidate = true := by
  have happend (front : Text) : extension.text <:+ front ++ extension.text := List.suffix_append _ _
  cases h with
  | directory => exact .inl ((happend _).trans (flavour.suffix_join_index candidate extension))
  | source | markupSource | emitted => exact .inl (happend candidate)
  | file _ h =>
    obtain ⟨root, suffix, -, heq⟩ | ⟨-, heq⟩ := ofFile_cases flavour candidate extension.text _
    · rw [heq]
      exact .inl (happend root)
    · rw [heq]
      exact .inr ⟨rfl, h⟩
  | stemSource _ _ hstem | stemMarkupSource _ _ hstem => exact .inl ⟨_, hstem.symm⟩
  | stemMissing | missing => cases found

theorem absent (h : Outcome flavour storage candidate ext resolution)
    (missing : resolution.found = false) : resolution.path = candidate ∧
      Absent storage candidate ext ∧ ∀ path ∈ resolution.probed, storage.isFile path = false := by
  cases h with
  | stemMissing unsourced hfile hstem hts htsx =>
    refine ⟨rfl, unsourced.absent_of_stem hfile hstem hts htsx, ?_⟩
    simp only [List.forall_mem_cons]
    exact ⟨hfile, unsourced.noTs, unsourced.noTsx, hts, htsx, by simp⟩
  | missing unsourced hfile hext h =>
    refine ⟨rfl, unsourced.absent_of_not_suffix hfile hext h, ?_⟩
    simp only [List.forall_mem_cons]
    exact ⟨hfile, unsourced.noTs, unsourced.noTsx, h, by simp⟩
  | file =>
    obtain ⟨root, suffix, -, heq⟩ | ⟨-, heq⟩ := ofFile_cases flavour candidate ext _
    all_goals
      rw [heq] at missing
      cases missing
  | directory | source | markupSource | stemSource | stemMarkupSource | emitted => cases missing

theorem firstApplies (h : Outcome flavour storage candidate ext resolution) :
    FirstApplies flavour storage candidate ext resolution.strategy := by
  cases h with
  | directory h => exact ⟨[], _, rfl, h, by simp⟩
  | source hdirectory h => exact ⟨[.directoryIndex], _, rfl, .inl h, by simp [Applies, hdirectory]⟩
  | markupSource hdirectory _ h =>
    exact ⟨[.directoryIndex], _, rfl, .inr h, by simp [Applies, hdirectory]⟩
  | file unsourced h =>
    obtain ⟨root, suffix, hsource, heq⟩ | ⟨hsource, heq⟩ := ofFile_cases flavour candidate ext _
    · rw [heq]
      exact ⟨[.directoryIndex, .sourceFile], _, rfl, ⟨h, root, suffix, hsource⟩,
        unsourced.not_applies⟩
    · rw [heq]
      refine ⟨[.directoryIndex, .sourceFile] ++ [.sourceSuffix], _, rfl, h, ?_⟩
      refine List.forall_mem_append.2 ⟨unsourced.not_applies, List.forall_mem_singleton.2 ?_⟩
      rintro ⟨-, root, suffix, h⟩
      exact hsource root suffix h
  | stemSource unsourced hfile hstem h =>
    exact ⟨_, [.notFound], rfl, .inr ⟨_, hstem, .inl h⟩, unsourced.not_applies_of_noFile hfile⟩
  | stemMarkupSource unsourced hfile hstem _ h =>
    exact ⟨_, [.notFound], rfl, .inr ⟨_, hstem, .inr h⟩, unsourced.not_applies_of_noFile hfile⟩
  | emitted unsourced hfile hext h =>
    exact ⟨_, [.notFound], rfl, .inl ⟨hext, h⟩, unsourced.not_applies_of_noFile hfile⟩
  | stemMissing unsourced hfile hstem hts htsx =>
    have nothing := unsourced.absent_of_stem hfile hstem hts htsx
    exact ⟨_, [], rfl, trivial, nothing.not_applies⟩
  | missing unsourced hfile hext h =>
    have nothing := unsourced.absent_of_not_suffix hfile hext h
    exact ⟨_, [], rfl, trivial, nothing.not_applies⟩

end Outcome

/-- A resolution comes to the first strategy that applies, at every candidate and on every storage,
also where probes fail. What it finds is backed by what stands on disk and ends in the extension, a
file that stays as it is apart; it finds nothing exactly when nothing is there that the candidate
could mean, and then leaves the candidate alone. -/
theorem resolve_justified (flavour : Flavour) (storage : Storage) (candidate : Text)
    (extension : Extension) :
    let resolution := resolve flavour storage candidate extension
    (resolution.found = true →
      Backed flavour storage candidate extension.text resolution.path ∧
      (extension.text <:+ resolution.path ∨
        resolution.path = candidate ∧ storage.isFile candidate = true)) ∧
    (resolution.found = false →
      resolution.path = candidate ∧ storage.isDirectory candidate = false ∧
      storage.isFile candidate = false ∧
      ∀ path ∈ resolution.probed, storage.isFile path = false) ∧
    (resolution.found = false ↔ Absent storage candidate extension.text) ∧
    FirstApplies flavour storage candidate extension.text resolution.strategy := by
  intro resolution
  have outcome : Outcome flavour storage candidate extension.text resolution :=
    resolve_outcome candidate
  refine ⟨?_, ?_, ⟨?_, ?_⟩, outcome.firstApplies⟩
  · intro found
    exact ⟨outcome.backed found, outcome.suffix_or_file found⟩
  · intro missing
    obtain ⟨hpath, nothing, hprobed⟩ := outcome.absent missing
    exact ⟨hpath, nothing.unsourced.noDirectory, nothing.noFile, hprobed⟩
  · intro missing
    exact (outcome.absent missing).2.1
  · intro nothing
    -- The strategy that is used applies, and nothing but the last one does.
    obtain ⟨before, after, horder, happlies, -⟩ := outcome.firstApplies
    by_contra found
    refine nothing.not_applies _ ?_ happlies
    have hfound : resolution.strategy ≠ .notFound := by
      simpa [Resolution.found] using found
    revert hfound
    cases resolution.strategy <;> simp

end Resolution

end Relink
