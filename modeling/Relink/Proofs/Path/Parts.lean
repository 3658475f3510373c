import Relink.Path.Parts
import Relink.Proofs.Path.Absolute

namespace Relink.Path.Parts

open Posix (isAbsolute components)

variable {path : Parts}

def Rooted (path : Parts) : Prop := isAbsolute path.root = true

theorem isAbsolute_toText (h : path.Rooted) : isAbsolute path.toText = true := by
  obtain ⟨root, names⟩ := path
  obtain ⟨rest, rfl⟩ := List.head?_eq_some_iff.1 (eq_of_beq h)
  rfl

theorem rooted_ofText_iff {text : Text} : (ofText text).Rooted ↔ Posix.root text ≠ [] := by
  unfold Rooted ofText
  obtain hroot | hroot | ⟨hroot, -⟩ := Posix.root_cases text <;> simp [hroot, isAbsolute]

theorem rooted_ofText {text : Text} (h : isAbsolute text = true) : (ofText text).Rooted := by
  obtain hroot | hroot | ⟨-, hrelative⟩ := Posix.root_cases text
  · simp [rooted_ofText_iff, hroot]
  · simp [rooted_ofText_iff, hroot]
  · rw [h] at hrelative
    cases hrelative

theorem Rooted.parent (h : path.Rooted) : path.parent.Rooted := h

theorem Rooted.append (h : path.Rooted) (text : Text) : (path.append (.ofText text)).Rooted := by
  unfold Parts.append
  split
  · exact h
  · next hroot => exact rooted_ofText_iff.2 hroot

theorem Rooted.withSuffix? {suffix : Text} {renamed : Parts} (h : path.Rooted)
    (hrenamed : path.withSuffix? suffix = some renamed) : renamed.Rooted := by
  obtain ⟨name, -, rfl⟩ := Option.map_eq_some_iff.1 hrenamed
  exact h

/-- Something stands in front of the last dot of a name and something behind it. -/
def Dotted (name : Text) : Prop :=
  ∃ stem rest, name = stem ++ .char '.' :: rest ∧ stem ≠ [] ∧ rest ≠ [] ∧ .char '.' ∉ rest

theorem suffix_ne_nil_iff : path.suffix ≠ [] ↔ Dotted path.name := by
  unfold suffix
  by_cases hdot : .char '.' ∈ path.name
  · obtain ⟨before, after, hname, hafter⟩ := Text.exists_cut_at_last hdot
    have hdotted : Dotted path.name ↔ before ≠ [] ∧ after ≠ [] := by
      constructor
      · rintro ⟨stem, rest, hname', hstem, hrest, hnot⟩
        obtain ⟨rfl, rfl⟩ := Text.cut_at_last_unique hafter hnot (hname.symm.trans hname')
        exact ⟨hstem, hrest⟩
      · rintro ⟨hbefore, hrest⟩
        exact ⟨before, after, hname, hbefore, hrest, hafter⟩
    rw [hdotted, hname, Text.splitAfterLast_cut hafter]
    cases before <;> simp
  · have hsplit : path.name.splitAfterLast (· == .char '.') = ([], path.name) := by
      refine Text.splitAfterLast_append (a := []) (by simp) ?_
      intro c hc
      simpa using fun heq : c = '.' => hdot (heq ▸ hc)
    rw [hsplit]
    refine iff_of_false (by simp) ?_
    rintro ⟨stem, rest, hname, -⟩
    exact hdot (by simp [hname])

instance : DecidablePred Dotted := fun name =>
  decidable_of_iff (suffix ⟨[], [name]⟩ ≠ []) suffix_ne_nil_iff

def withEnding (path : Parts) (ending : Text) : Parts :=
  ⟨path.root, path.names.dropLast ++ [path.name ++ ending]⟩

@[simp] theorem name_withEnding (path : Parts) (ending : Text) :
    (path.withEnding ending).name = path.name ++ ending := by
  simp [withEnding, name]

theorem withSuffix?_eq (hnames : path.names ≠ []) (hname : ¬Dotted path.name) (ending : Text) :
    path.withSuffix? ending = some (path.withEnding ending) := by
  have hsuffix : path.suffix = [] := not_not.1 (suffix_ne_nil_iff.not.2 hname)
  simp [withSuffix?, withEnding, name, hsuffix, List.getLast?_eq_some_getLast hnames]

theorem name_append {text : Text} (relative : isAbsolute text = false)
    (hname : (ofText text).names ≠ []) : (path.append (ofText text)).name = (ofText text).name := by
  have hroot : (ofText text).root = [] := Posix.root_eq_nil relative
  rw [Parts.append, if_pos hroot, name, name, List.getLast?_append_of_ne_nil _ hname]

structure Proper (path : Parts) : Prop where
  root : path.root = [] ∨ path.root = [.char '/'] ∨ path.root = [.char '/', .char '/']
  names : ∀ name ∈ path.names, name ≠ [] ∧ name ≠ [.char '.'] ∧ .char '/' ∉ name

theorem proper_ofText (text : Text) : (ofText text).Proper where
  root := by
    obtain h | h | ⟨h, -⟩ := Posix.root_cases text <;> simp [ofText, h]
  names name hname := by
    obtain ⟨hmem, hkept⟩ := List.mem_filter.1 hname
    obtain ⟨hne, hdot⟩ : name ≠ [] ∧ name ≠ [.char '.'] := by simpa using hkept
    exact ⟨hne, hdot, Text.not_mem_of_mem_splitOn hmem⟩

namespace Proper

theorem append {more : Parts} (h : path.Proper) (hmore : more.Proper) :
    (path.append more).Proper := by
  unfold Parts.append
  split
  · exact ⟨h.root, List.forall_mem_append.2 ⟨h.names, hmore.names⟩⟩
  · exact hmore

theorem parent (h : path.Proper) : path.parent.Proper :=
  ⟨h.root, fun name hname => h.names name ((List.dropLast_sublist _).mem hname)⟩

theorem isAbsolute_joinWith (h : path.Proper) :
    isAbsolute (Text.joinWith ['/'] path.names) = false :=
  Posix.isAbsolute_joinWith (fun name hname => (h.names name hname).1)
    fun name hname => (h.names name hname).2.2

theorem isAbsolute_toText (h : path.Proper) : isAbsolute path.toText = decide (path.root ≠ []) := by
  have hjoin := h.isAbsolute_joinWith
  obtain ⟨root, names⟩ := path
  obtain rfl | rfl | rfl := h.root
  · simp only [toText, List.nil_append]
    split
    · rfl
    · simpa using hjoin
  · rfl
  · rfl

theorem components_toText (h : path.Proper) :
    ∃ front, (∀ component ∈ front, component = [] ∨ component = [.char '.']) ∧
      components path.toText = front ++ path.names := by
  have hsplit : path.names ≠ [] → components (Text.joinWith ['/'] path.names) = path.names :=
    List.splitOn_intercalate (CodePoint.char '/') fun name hname => (h.names name hname).2.2
  obtain ⟨root, names⟩ := path
  by_cases hnames : names = []
  · subst hnames
    refine ⟨components (toText ⟨root, []⟩), ?_, by simp⟩
    obtain rfl | rfl | rfl := h.root <;> decide
  have hcomponents := hsplit hnames
  obtain rfl | rfl | rfl := h.root
  · refine ⟨[], by simp, ?_⟩
    have hne : Text.joinWith ['/'] names ≠ [] := by
      intro hnil
      rw [hnil] at hcomponents
      obtain rfl : names = [[]] := hcomponents.symm
      exact (h.names [] (List.mem_singleton_self [])).1 rfl
    simpa [toText, hne] using hcomponents
  · refine ⟨[[]], by simp, ?_⟩
    simpa [toText, Posix.components_cons] using hcomponents
  · refine ⟨[[], []], by simp, ?_⟩
    simpa [toText, Posix.components_cons] using hcomponents

end Proper

open Posix (Location join normalize)

section

variable {text name : Text}

theorem ofText_join {more : Text} (htext : text ≠ []) (h : isAbsolute more = false) :
    ofText (join text more) = (ofText text).append (ofText more) := by
  have hroot : (ofText more).root = [] := Posix.root_eq_nil h
  rw [append, if_pos hroot, ofText, ofText, ofText, Posix.root_join_relative htext h,
    Posix.join_relative text h]
  split
  · next hlast =>
    obtain ⟨front, rfl⟩ := List.getLast?_eq_some_iff.1 (hlast.resolve_left htext)
    have hfront : components (front ++ [.char '/']) = components front ++ [[]] :=
      Posix.components_append front []
    rw [List.append_assoc, List.cons_append, List.nil_append, Posix.components_append, hfront]
    simp
  · rw [Posix.components_append, List.filter_append]

theorem ofText_name (hname : IsName name) (hslash : .char '/' ∉ name) :
    ofText name = ⟨[], [name]⟩ := by
  have hroot : Posix.root name = [] := Posix.root_eq_nil (Posix.isAbsolute_of_not_mem hslash)
  simp [ofText, hroot, Posix.components_eq_singleton hslash, hname.1, hname.2.1]

theorem parent_join (h : isAbsolute text = true) (hname : IsName name) (hslash : .char '/' ∉ name) :
    (ofText (join text name)).parent = ofText text := by
  have htext : text ≠ [] := by
    rintro rfl
    cases h
  rw [ofText_join htext (Posix.isAbsolute_of_not_mem hslash), ofText_name hname hslash, append,
    if_pos rfl, parent, List.dropLast_concat]

theorem names_ofText_text (location : Location) :
    (ofText location.text).names = location.names := by
  have hfilter : (ofText location.text).names =
      ((components location.text).filter (· ≠ [])).filter (· ≠ [.char '.']) := by
    rw [List.filter_filter]
    simp only [ofText, Bool.and_comm]
  rw [hfilter, location.filter_components_text, List.filter_eq_self]
  intro name hname
  simpa using (location.isName name hname).2.1

theorem toText_ofText (h : isAbsolute text = true) (hnormal : normalize text = text) :
    (ofText text).toText = text := by
  obtain ⟨location, htext | htext⟩ := Posix.normalize_cases h
  · rw [hnormal] at htext
    subst htext
    have hroot : (ofText location.text).root = [.char '/'] := location.root_text
    rw [toText, names_ofText_text, hroot]
    rfl
  · rw [hnormal] at htext
    subst htext
    have hroot : (ofText ('/' :: location.text)).root = [.char '/', .char '/'] :=
      location.root_cons_text
    have hnames : (ofText ('/' :: location.text)).names = location.names := by
      rw [← names_ofText_text, ofText, Posix.components_cons]
      rfl
    rw [toText, hnames, hroot]
    rfl

end

end Relink.Path.Parts
