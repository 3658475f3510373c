import Mathlib.Tactic.SplitIfs
import Relink.Proofs.Path.LastComponent
import Relink.Resolution

namespace Relink

theorem Extension.slash_not_mem_text (extension : Extension) : .char '/' ∉ extension.text := by
  cases extension <;> decide

theorem Extension.length_text (extension : Extension) : 3 ≤ extension.text.length := by
  cases extension <;> decide

theorem Extension.text_eq_dot (extension : Extension) :
    ∃ rest, extension.text = .char '.' :: rest ∧ .char '.' ∉ rest ∧
      .char '.' :: rest ∉ Resolution.sourceSuffixes := by
  cases extension with
  | js => exact ⟨['j', 's'], by decide⟩
  | mjs => exact ⟨['m', 'j', 's'], by decide⟩
  | cjs => exact ⟨['c', 'j', 's'], by decide⟩

namespace Resolution

open Path.Posix

structure Unsourced (storage : Storage) (candidate : Text) : Prop where
  noDirectory : storage.isDirectory candidate = false
  noTs : storage.isFile (candidate ++ ".ts") = false
  noTsx : storage.isFile (candidate ++ ".tsx") = false

/-- The cases of a resolution, with what was found on the way. -/
inductive Outcome (flavour : Flavour) (storage : Storage) (candidate ext : Text) : Resolution → Prop
  | directory (h : storage.isDirectory candidate = true) :
      Outcome flavour storage candidate ext
        ⟨flavour.join candidate ("index" ++ ext), .directoryIndex, [candidate]⟩
  | source (hdirectory : storage.isDirectory candidate = false)
      (h : storage.isFile (candidate ++ ".ts") = true) :
      Outcome flavour storage candidate ext
        ⟨candidate ++ ext, .sourceFile, [candidate, candidate ++ ".ts"]⟩
  | markupSource (hdirectory : storage.isDirectory candidate = false)
      (hts : storage.isFile (candidate ++ ".ts") = false)
      (h : storage.isFile (candidate ++ ".tsx") = true) :
      Outcome flavour storage candidate ext
        ⟨candidate ++ ext, .sourceFile, [candidate, candidate ++ ".ts", candidate ++ ".tsx"]⟩
  | file (unsourced : Unsourced storage candidate) (h : storage.isFile candidate = true) :
      Outcome flavour storage candidate ext
        (ofFile flavour candidate ext [candidate, candidate ++ ".ts", candidate ++ ".tsx"])
  | stemSource {stem : Text} (unsourced : Unsourced storage candidate)
      (hfile : storage.isFile candidate = false) (hstem : candidate = stem ++ ext)
      (h : storage.isFile (stem ++ ".ts") = true) :
      Outcome flavour storage candidate ext
        ⟨candidate, .emittedFile,
          [candidate, candidate ++ ".ts", candidate ++ ".tsx", stem ++ ".ts"]⟩
  | stemMarkupSource {stem : Text} (unsourced : Unsourced storage candidate)
      (hfile : storage.isFile candidate = false) (hstem : candidate = stem ++ ext)
      (hts : storage.isFile (stem ++ ".ts") = false) (h : storage.isFile (stem ++ ".tsx") = true) :
      Outcome flavour storage candidate ext
        ⟨candidate, .emittedFile,
          [candidate, candidate ++ ".ts", candidate ++ ".tsx", stem ++ ".ts", stem ++ ".tsx"]⟩
  | stemMissing {stem : Text} (unsourced : Unsourced storage candidate)
      (hfile : storage.isFile candidate = false) (hstem : candidate = stem ++ ext)
      (hts : storage.isFile (stem ++ ".ts") = false)
      (htsx : storage.isFile (stem ++ ".tsx") = false) :
      Outcome flavour storage candidate ext
        ⟨candidate, .notFound,
          [candidate, candidate ++ ".ts", candidate ++ ".tsx", stem ++ ".ts", stem ++ ".tsx"]⟩
  | emitted (unsourced : Unsourced storage candidate) (hfile : storage.isFile candidate = false)
      (hext : ¬ext <:+ candidate) (h : storage.isFile (candidate ++ ext) = true) :
      Outcome flavour storage candidate ext
        ⟨candidate ++ ext, .emittedFile,
          [candidate, candidate ++ ".ts", candidate ++ ".tsx", candidate ++ ext]⟩
  | missing (unsourced : Unsourced storage candidate) (hfile : storage.isFile candidate = false)
      (hext : ¬ext <:+ candidate) (h : storage.isFile (candidate ++ ext) = false) :
      Outcome flavour storage candidate ext
        ⟨candidate, .notFound,
          [candidate, candidate ++ ".ts", candidate ++ ".tsx", candidate ++ ext]⟩

variable {flavour : Flavour} {storage : Storage} {extension : Extension}

theorem stem?_eq_some_iff {path ext stem : Text} :
    stem? path ext = some stem ↔ path = stem ++ ext := by
  unfold stem?
  constructor
  · intro h
    split_ifs at h with hsuffix
    obtain ⟨front, rfl⟩ := List.isSuffixOf_iff_suffix.1 hsuffix
    cases h
    simp
  · rintro rfl
    rw [if_pos (List.isSuffixOf_iff_suffix.2 (List.suffix_append stem ext))]
    simp

theorem stem?_eq_none_iff {path ext : Text} : stem? path ext = none ↔ ¬ext <:+ path := by
  rw [Option.eq_none_iff_forall_ne_some]
  constructor
  · rintro h ⟨stem, rfl⟩
    exact h stem (stem?_eq_some_iff.2 rfl)
  · intro h stem hstem
    exact h ⟨stem, (stem?_eq_some_iff.1 hstem).symm⟩

theorem resolve_outcome (candidate : Text) :
    Outcome flavour storage candidate extension.text
      (resolve flavour storage candidate extension) := by
  simp only [resolve]
  split
  · next hdirectory => exact .directory hdirectory
  · next hdirectory =>
    rw [Bool.not_eq_true] at hdirectory
    split
    · next hts => exact .source hdirectory hts
    · next hts =>
      rw [Bool.not_eq_true] at hts
      split
      · next htsx => exact .markupSource hdirectory hts htsx
      · next htsx =>
        rw [Bool.not_eq_true] at htsx
        have unsourced : Unsourced storage candidate := ⟨hdirectory, hts, htsx⟩
        split
        · next hfile => exact .file unsourced hfile
        · next hfile =>
          rw [Bool.not_eq_true] at hfile
          cases hstem : stem? candidate extension.text with
          | some stem =>
            rw [stem?_eq_some_iff] at hstem
            simp only
            split_ifs with hts htsx
            · exact .stemSource unsourced hfile hstem hts
            · exact .stemMarkupSource unsourced hfile hstem (by simpa using hts) htsx
            · exact .stemMissing unsourced hfile hstem (by simpa using hts) (by simpa using htsx)
          | none =>
            rw [stem?_eq_none_iff] at hstem
            simp only
            split_ifs with hemitted
            · exact .emitted unsourced hfile hstem hemitted
            · exact .missing unsourced hfile hstem (by simpa using hemitted)

theorem ofFile_eq (flavour : Flavour) {path root suffix : Text}
    (h : flavour.splitExtension path = (root, suffix)) (ext : Text) (probed : List Text) :
    ofFile flavour path ext probed =
      if suffix ∈ sourceSuffixes ∧ ¬(".d" : Text) <:+ root then ⟨root ++ ext, .sourceSuffix, probed⟩
      else ⟨path, .existingFile, probed⟩ := by
  simp only [ofFile, h, List.isSuffixOf_iff_suffix]

theorem ofFile_path (path ext : Text) (probed : List Text) :
    (ofFile .posix path ext probed).path = path ∨
    (ofFile .posix path ext probed).path = (splitExtension path).1 ++ ext := by
  by_cases h : (splitExtension path).2 ∈ sourceSuffixes ∧
      ¬(".d" : Text).isSuffixOf (splitExtension path).1 = true
  · exact Or.inr (congrArg Resolution.path (if_pos h))
  · exact Or.inl (congrArg Resolution.path (if_neg h))

theorem ofFile_path_of_suffix {path : Text} (probed : List Text) (h : extension.text <:+ path) :
    (ofFile .posix path extension.text probed).path = path := by
  -- The last dot of the path begins the extension, so what is split off is no suffix of a source.
  have hsuffix : (splitExtension path).2 ∉ sourceSuffixes := by
    intro hsource
    obtain ⟨rest, hrest, hdot, hnot⟩ := extension.text_eq_dot
    obtain ⟨hpath, hnil | ⟨other, hother, hdot', -⟩⟩ := splitExtension_spec path
    · rw [hnil] at hsource
      revert hsource
      decide
    · obtain ⟨stem, rfl⟩ := h
      rw [hother, hrest] at hpath
      obtain ⟨-, rfl⟩ := Text.cut_at_last_unique hdot hdot' hpath
      exact hnot (hother ▸ hsource)
  exact congrArg Resolution.path (if_neg fun h => hsuffix h.1)

namespace Outcome

variable {candidate ext : Text} {resolution : Resolution}

theorem path_eq_or_suffix (h : Outcome .posix storage candidate ext resolution) :
    resolution.path = candidate ∨ ext <:+ resolution.path := by
  cases h with
  | directory =>
    exact Or.inr ((List.suffix_append ("index" : Text) ext).trans (suffix_join candidate _))
  | source | markupSource | emitted => exact Or.inr (List.suffix_append candidate ext)
  | file =>
    refine (ofFile_path candidate ext _).imp id ?_
    intro hpath
    rw [hpath]
    exact List.suffix_append _ ext
  | stemSource | stemMarkupSource | stemMissing | missing => exact Or.inl rfl

theorem exists_path_eq {location : Location}
    (h : Outcome .posix storage location.text extension.text resolution) :
    ∃ target : Location, resolution.path = target.text := by
  have hslash := extension.slash_not_mem_text
  have hlength := extension.length_text
  have hname : Path.IsName (("index" : Text) ++ extension.text) := Path.isName_of_length (by simp)
  -- Any answer but an index file has the last name of the candidate, up to its ending.
  have hcandidate :=
    location.exists_ending_eq (List.append_nil location.text).symm (by simp) hslash hlength
  cases h with
  | directory => exact location.exists_join_eq hname (by simpa using hslash)
  | source | markupSource | emitted => exact hcandidate
  | file =>
    obtain hpath | hpath := ofFile_path location.text extension.text _
    · exact ⟨location, hpath⟩
    · rw [hpath]
      obtain ⟨htext, hsuffix⟩ := splitExtension_spec location.text
      refine location.exists_ending_eq htext ?_ hslash hlength
      obtain hnil | ⟨rest, hrest, -, hslash⟩ := hsuffix
      · simp [hnil]
      · simpa [hrest] using hslash
  | stemSource | stemMarkupSource | stemMissing | missing => exact ⟨location, rfl⟩

theorem mem_path {c : CodePoint} (h : Outcome .posix storage candidate ext resolution)
    (hc : c ∈ resolution.path) : c ∈ candidate ∨ c ∈ ("/index" : Text) ++ ext := by
  have happend : ∀ {front : Text}, c ∈ front ++ ext → c ∈ front ∨ c ∈ ("/index" : Text) ++ ext :=
    fun h => (List.mem_append.1 h).imp id (List.mem_append_right _)
  cases h with
  | directory => exact mem_join hc
  | source | markupSource | emitted => exact happend hc
  | file =>
    obtain hpath | hpath := ofFile_path candidate ext _
    · exact Or.inl (hpath ▸ hc)
    · rw [hpath] at hc
      refine (happend hc).imp ?_ id
      intro hroot
      rw [(splitExtension_spec candidate).1]
      exact List.mem_append_left _ hroot
  | stemSource | stemMarkupSource | stemMissing | missing => exact Or.inl hc

theorem count_path (h : Outcome .posix storage candidate extension.text resolution) :
    resolution.path.count (.char '\\') = candidate.count (.char '\\') := by
  have hext : extension.text.count (.char '\\') = 0 := by cases extension <;> decide
  have hindex : (("index" : Text) ++ extension.text).count (.char '\\') = 0 := by
    rw [List.count_append, hext]
    decide
  cases h with
  | directory =>
    simp only [Flavour.join]
    rw [join_relative candidate (by rfl)]
    split
    · rw [List.count_append, hindex, Nat.add_zero]
    · rw [List.count_append, List.count_cons_of_ne (by decide), hindex, Nat.add_zero]
  | source | markupSource | emitted => rw [List.count_append, hext, Nat.add_zero]
  | file =>
    obtain ⟨hpath, -⟩ := splitExtension_spec candidate
    cases hsplit : splitExtension candidate with | mk root suffix =>
    rw [hsplit] at hpath
    rw [ofFile_eq .posix hsplit]
    split
    · next hsource =>
      have hsuffix : ∀ suffix ∈ sourceSuffixes, suffix.count (.char '\\') = 0 := by decide
      have hcount := congrArg (List.count (.char '\\')) hpath
      rw [List.count_append, hsuffix _ hsource.1] at hcount
      rw [List.count_append, hext, hcount]
    · rfl
  | stemSource | stemMarkupSource | stemMissing | missing => rfl

theorem path_eq_of_suffix (h : Outcome .posix storage candidate extension.text resolution)
    (unsourced : Unsourced storage candidate) (hext : extension.text <:+ candidate) :
    resolution.path = candidate := by
  cases h with
  | directory h => exact absurd unsourced.noDirectory (by rw [h]; decide)
  | source _ h => exact absurd unsourced.noTs (by rw [h]; decide)
  | markupSource _ _ h => exact absurd unsourced.noTsx (by rw [h]; decide)
  | file => exact ofFile_path_of_suffix _ hext
  | stemSource | stemMarkupSource | stemMissing | missing => rfl
  | emitted _ _ h => exact absurd hext h

end Outcome

/-- No directory ends in the extension, and no file in the extension with the suffix of a source. -/
structure Settled (storage : Storage) (ext : Text) : Prop where
  noDirectory : ∀ path, ext <:+ path → storage.isDirectory path = false
  noTs : ∀ path, (ext ++ ".ts" : Text) <:+ path → storage.isFile path = false
  noTsx : ∀ path, (ext ++ ".tsx" : Text) <:+ path → storage.isFile path = false

theorem Settled.unsourced {ext path : Text} (settled : Settled storage ext) (h : ext <:+ path) :
    Unsourced storage path := by
  obtain ⟨stem, rfl⟩ := h
  refine ⟨settled.noDirectory _ ⟨stem, rfl⟩, settled.noTs _ ⟨stem, ?_⟩,
    settled.noTsx _ ⟨stem, ?_⟩⟩ <;>
    exact (List.append_assoc ..).symm

theorem resolve_path_resolve (settled : Settled storage extension.text) (candidate : Text) :
    (resolve .posix storage (resolve .posix storage candidate extension).path extension).path =
      (resolve .posix storage candidate extension).path := by
  obtain hpath | hext := (resolve_outcome candidate).path_eq_or_suffix
  · rw [hpath, hpath]
  · exact (resolve_outcome _).path_eq_of_suffix (settled.unsourced hext) hext

end Resolution

end Relink
