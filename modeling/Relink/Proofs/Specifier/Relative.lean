import Relink.Proofs.Path.Absolute
import Relink.Proofs.Path.DrivePath
import Relink.Proofs.Specifier.Denotation

namespace Relink.Specifier

open Relink.Path

variable {setting : Setting}

theorem relativeTo_follow (posix : setting.flavour = .posix) {target directory : Text}
    (htarget : Posix.IsSingleRooted target) (hdirectory : Posix.IsSingleRooted directory) :
    relativeTo setting target directory =
      dotted ((Posix.Location.top.follow directory).wayTo (Posix.Location.top.follow target)) := by
  simp only [relativeTo, posix, Flavour.relative?, hdirectory.relative?_follow htarget,
    Flavour.forwardSlashes]

section Drives

variable (windows : setting.flavour = .windows) (target directory : Windows.DrivePath)

include windows

theorem relativeTo_way (hletter : target.letter.toLower = directory.letter.toLower) :
    relativeTo setting target.text directory.text = dotted (directory.way target) := by
  have hback : .char '\\' ∉ directory.way target := fun h => (directory.mem_way target h).2 rfl
  simp only [relativeTo, windows, Flavour.relative?, directory.relative?_text, if_pos hletter.symm,
    Windows.forwardSlashes_backslashes hback]

theorem relativeTo_otherDrive (hletter : target.letter.toLower ≠ directory.letter.toLower) :
    relativeTo setting target.text directory.text =
      target.text.map fun c => if c = .char '\\' then .char '/' else c := by
  simp only [relativeTo, windows, Flavour.relative?, directory.relative?_text, if_neg hletter.symm,
    Flavour.forwardSlashes, beq_iff_eq]

end Drives

theorem mem_dotted_way (target directory : Windows.DrivePath) {c : CodePoint}
    (h : c ∈ dotted (directory.way target)) : c ≠ ':' ∧ c ≠ '\\' := by
  obtain h | h := mem_dotted h
  · exact directory.mem_way target h
  · obtain rfl | rfl : c = '.' ∨ c = '/' := by simpa using h
    · decide
    · decide

theorem lower_join_dotted_way (target directory : Windows.DrivePath)
    (hletter : target.letter.toLower = directory.letter.toLower) :
    (Windows.normalize (Windows.join directory.text (dotted (directory.way target)))).lower =
      (Windows.normalize target.text).lower := by
  have hcolon : .char ':' ∉ dotted (directory.way target) :=
    fun h => (mem_dotted_way target directory h).1 rfl
  have hback : .char '\\' ∉ dotted (directory.way target) :=
    fun h => (mem_dotted_way target directory h).2 rfl
  rw [directory.normalize_join hcolon hback (isDotted_dotted _).led, target.normalize_text,
    follow_dotted _ (directory.isAbsolute_way target)]
  exact directory.lower_eq target hletter.symm (fun _ => directory.isAscii_follow_way target)
    (fun _ => target.isAscii_place) (directory.forall₂_follow_way target)

/-- A path as it is seen from a directory is dotted, and joined to the directory it leads back to
the path. On drives it has no backslashes; with one drive it leads back but for the case of letters,
and with two it is the path itself. -/
theorem relativeTo_leads (setting : Setting) :
    (setting.flavour = .posix → ∀ target directory : Text,
      Posix.IsSingleRooted target → Posix.IsSingleRooted directory →
        IsDotted (relativeTo setting target directory) ∧
        Posix.normalize (Posix.join directory (relativeTo setting target directory)) =
          Posix.normalize target) ∧
    (setting.flavour = .windows → ∀ target directory : Windows.DrivePath,
      .char '\\' ∉ relativeTo setting target.text directory.text ∧
      (target.letter.toLower = directory.letter.toLower →
        IsDotted (relativeTo setting target.text directory.text) ∧
        (Windows.normalize (Windows.join directory.text
          (relativeTo setting target.text directory.text))).lower =
            (Windows.normalize target.text).lower) ∧
      (target.letter.toLower ≠ directory.letter.toLower →
        relativeTo setting target.text directory.text =
          target.text.map fun c => if c = .char '\\' then .char '/' else c)) := by
  constructor
  · intro posix target directory htarget hdirectory
    rw [relativeTo_follow posix htarget hdirectory]
    refine ⟨isDotted_dotted _, ?_⟩
    rw [hdirectory.normalize_join (isDotted_dotted _).isAbsolute_eq_false,
      follow_dotted _ (Posix.Location.isAbsolute_wayTo _ _), Posix.Location.follow_wayTo,
      htarget.normalize_eq]
  · intro windows target directory
    by_cases hletter : target.letter.toLower = directory.letter.toLower
    · rw [relativeTo_way windows target directory hletter]
      refine ⟨fun h => (mem_dotted_way target directory h).2 rfl, fun _ => ?_, absurd hletter⟩
      exact ⟨isDotted_dotted _, lower_join_dotted_way target directory hletter⟩
    · have hother := relativeTo_otherDrive windows target directory hletter
      refine ⟨?_, fun h => absurd h hletter, fun _ => hother⟩
      rw [hother]
      intro h
      obtain ⟨c, -, hc⟩ := List.mem_map.1 h
      split at hc <;> simp_all

def hiddenFile : Text := "/p/lib/../src/..hidden"

def capitalLibrary : Windows.DrivePath :=
  ⟨'e', "P/LIB\\..\\Lib/x", rfl, Windows.isAscii_of_all rfl, by decide⟩

def smallSources : Windows.DrivePath :=
  ⟨'E', "p\\src\\.", rfl, Windows.isAscii_of_all rfl, by decide⟩

def otherSources : Windows.DrivePath :=
  ⟨'d', "src", rfl, Windows.isAscii_of_all rfl, by decide⟩

theorem relativeTo_leads_capitals :
    (Posix.IsSingleRooted hiddenFile ∧ Posix.IsSingleRooted "/p/src" ∧
      relativeTo librarySetting hiddenFile "/p/src" = "./..hidden" ∧
      Posix.normalize (Posix.join "/p/src" (relativeTo librarySetting hiddenFile "/p/src")) =
        Posix.normalize hiddenFile) ∧
    capitalLibrary.letter.toLower = smallSources.letter.toLower ∧
    relativeTo { librarySetting with flavour := .windows } capitalLibrary.text smallSources.text =
      "../Lib/x" ∧
    (Windows.normalize (Windows.join smallSources.text
      (relativeTo { librarySetting with flavour := .windows } capitalLibrary.text
        smallSources.text))).lower = (Windows.normalize capitalLibrary.text).lower ∧
    capitalLibrary.letter.toLower ≠ otherSources.letter.toLower ∧
    relativeTo { librarySetting with flavour := .windows } capitalLibrary.text otherSources.text =
      "e:/P/LIB/../Lib/x" := by
  have posix := (relativeTo_leads librarySetting).1 rfl
  have windows := (relativeTo_leads { librarySetting with flavour := .windows }).2 rfl
  have hfile : Posix.IsSingleRooted hiddenFile := by
    unfold Posix.IsSingleRooted
    decide
  have hsources : Posix.IsSingleRooted "/p/src" := by
    unfold Posix.IsSingleRooted
    decide
  exact ⟨⟨hfile, hsources, by decide, (posix _ _ hfile hsources).2⟩, by decide, by decide,
    ((windows capitalLibrary smallSources).2.1 (by decide)).2, by decide,
    (windows capitalLibrary otherSources).2.2 (by decide)⟩

end Relink.Specifier
