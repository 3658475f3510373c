import Relink.Proofs.Path.Location

namespace Relink.Path.Posix

def IsSingleRooted (path : Text) : Prop := ("/" : Text) <+: path ∧ ¬("//" : Text) <+: path

namespace Location

theorem isSingleRooted_text (location : Location) : IsSingleRooted location.text := by
  have hnames : isAbsolute (Text.joinWith ['/'] location.names) = false :=
    isAbsolute_joinWith (fun name hname => (location.isName name hname).1) location.noSlash
  refine ⟨⟨_, rfl⟩, ?_⟩
  rintro ⟨rest, hrest⟩
  obtain hrest : .char '/' :: rest = Text.joinWith ['/'] location.names :=
    List.tail_eq_of_cons_eq hrest
  rw [← hrest] at hnames
  cases hnames

theorem exists_text_eq {path : Text} {names : List Text} (h : components path = [] :: names)
    (hne : names ≠ []) (isName : ∀ name ∈ names, IsName name) :
    ∃ location : Location, location.text = path ∧ location.names = names := by
  have noSlash : ∀ name ∈ names, .char '/' ∉ name := by
    intro name hname
    have hmem : name ∈ components path := h ▸ List.mem_cons_of_mem _ hname
    exact Text.not_mem_of_mem_splitOn hmem
  have hjoin := joinWith_components path
  refine ⟨⟨names, isName, noSlash⟩, ?_, rfl⟩
  obtain ⟨name, rest, rfl⟩ := List.exists_cons_of_ne_nil hne
  rw [h] at hjoin
  exact hjoin

theorem components_eq_concat (location : Location) :
    ∃ front last, components location.text = [] :: front ++ [last] ∧
      ∀ name ∈ front, IsName name := by
  obtain ⟨names, isName, noSlash⟩ := location
  obtain rfl | ⟨front, last, rfl⟩ := List.eq_nil_or_concat names
  · exact ⟨[], [], rfl, by simp⟩
  · refine ⟨front, last, ?_, ?_⟩
    · rw [components_text _ (by simp)]
      simp
    · exact fun name hname => isName name (by simp [hname])

theorem exists_cut (location : Location) {before after : Text}
    (h : location.text = before ++ .char '/' :: after) (hafter : .char '/' ∉ after) :
    ∃ front, components before = [] :: front ∧ ∀ name ∈ front, IsName name := by
  obtain ⟨front, last, hcomponents, hfront⟩ := components_eq_concat location
  rw [h, components_append, components_eq_singleton hafter] at hcomponents
  exact ⟨front, (List.append_inj' hcomponents rfl).1, hfront⟩

theorem exists_join_eq (location : Location) {name : Text} (hname : IsName name)
    (hslash : .char '/' ∉ name) : ∃ file : Location, join location.text name = file.text := by
  have hcomponents : components (join location.text name) = [] :: (location.names ++ [name]) := by
    rw [join_text location (isAbsolute_of_not_mem hslash)]
    split
    · next h => rw [components_cons, components_eq_singleton hslash, h, List.nil_append]
    · next h =>
      rw [components_append, components_text location h, components_eq_singleton hslash]
      rfl
  have hnames : ∀ other ∈ location.names ++ [name], IsName other :=
    List.forall_mem_append.2 ⟨location.isName, List.forall_mem_singleton.2 hname⟩
  obtain ⟨file, hfile, -⟩ := exists_text_eq hcomponents (by simp) hnames
  exact ⟨file, hfile.symm⟩

theorem exists_ending_eq (location : Location) {root suffix ending : Text}
    (h : location.text = root ++ suffix) (hsuffix : .char '/' ∉ suffix)
    (hslash : .char '/' ∉ ending) (hlength : 3 ≤ ending.length) :
    ∃ other : Location, root ++ ending = other.text := by
  have hroot : .char '/' ∈ root := by
    have hmem : .char '/' ∈ root ++ suffix := h ▸ List.mem_cons_self
    exact (List.mem_append.1 hmem).resolve_right hsuffix
  obtain ⟨before, after, rfl, hafter⟩ := Text.exists_cut_at_last hroot
  have htext : location.text = before ++ .char '/' :: (after ++ suffix) := by simpa using h
  obtain ⟨front, hfront, hnames⟩ := exists_cut location htext (by simp [hafter, hsuffix])
  have hcomponents : components (before ++ .char '/' :: after ++ ending) =
      [] :: (front ++ [after ++ ending]) := by
    rw [List.append_assoc, List.cons_append, components_append, hfront,
      components_eq_singleton (by simp [hafter, hslash])]
    rfl
  have hname : IsName (after ++ ending) := isName_of_length (by simp; omega)
  obtain ⟨other, hother, -⟩ := exists_text_eq hcomponents (by simp)
    (List.forall_mem_append.2 ⟨hnames, List.forall_mem_singleton.2 hname⟩)
  exact ⟨other, hother.symm⟩

theorem exists_dirname_eq (location : Location) :
    ∃ directory : Location, dirname location.text = directory.text := by
  obtain ⟨before, after, htext, hafter⟩ :=
    Text.exists_cut_at_last (show .char '/' ∈ location.text from List.mem_cons_self)
  obtain ⟨front, hfront, hnames⟩ := exists_cut location htext hafter
  rw [htext]
  cases front with
  | nil =>
    have hbefore := joinWith_components before
    rw [hfront] at hbefore
    rw [← hbefore]
    exact ⟨top, dirname_name hafter⟩
  | cons name front =>
    obtain ⟨directory, rfl, hdirectory⟩ :=
      exists_text_eq hfront (List.cons_ne_nil name front) hnames
    have hlast := getLast?_text directory (hdirectory ▸ List.cons_ne_nil name front)
    exact ⟨directory, dirname_append directory.text_ne_nil hlast hafter⟩

end Location

theorem exists_text_eq_normalize {path : Text} (h : IsSingleRooted (normalize path)) :
    ∃ location : Location, normalize path = location.text := by
  obtain ⟨hled, hsingle⟩ := h
  obtain hroot | hroot | ⟨hroot, hrelative⟩ := root_cases path
  · exact ⟨_, Location.normalize_eq hroot⟩
  · refine absurd ?_ hsingle
    simp [normalize, hroot]
  -- A relative path stays relative, for none of its components is empty.
  · have hparts : isAbsolute (Text.joinWith ['/'] (collapse false (components path))) = false :=
      isAbsolute_joinWith (fun part h => (mem_collapse h).2)
        fun part h => Text.not_mem_of_mem_splitOn (mem_collapse h).1
    have hnormalize : isAbsolute (normalize path) = false := by
      simp only [normalize, hroot, hrelative, List.nil_append]
      split
      · rfl
      · exact hparts
    obtain ⟨rest, hrest⟩ := hled
    rw [← hrest] at hnormalize
    cases hnormalize

end Relink.Path.Posix
