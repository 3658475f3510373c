import Relink.Proofs.Path.LastComponent
import Relink.Proofs.Path.Relative

namespace Relink.Path.Posix

theorem normalize_cases {path : Text} (h : isAbsolute path = true) :
    ∃ location : Location, normalize path = location.text ∨
      normalize path = .char '/' :: location.text := by
  refine ⟨Location.top.follow path, ?_⟩
  obtain hroot | hroot | ⟨-, hrelative⟩ := root_cases path
  · exact .inl (Location.normalize_eq hroot)
  · right
    simp only [normalize, hroot, h, List.cons_append, List.nil_append]
    rw [if_neg (List.cons_ne_nil _ _)]
    rfl
  · rw [h] at hrelative
    cases hrelative

theorem Location.root_cons_text (location : Location) :
    root ('/' :: location.text) = [.char '/', .char '/'] := by
  obtain ⟨-, hsingle⟩ := location.isSingleRooted_text
  rw [text] at hsingle ⊢
  cases hnames : Text.joinWith ['/'] location.names with
  | nil => rfl
  | cons c rest =>
    have hc : c ≠ '/' := fun heq => hsingle ⟨rest, by rw [hnames, heq]; rfl⟩
    simp [root, hc]

theorem Location.normalize_cons_text (location : Location) :
    normalize ('/' :: location.text) = .char '/' :: location.text := by
  have hcollapse : collapse true (components ('/' :: location.text)) = location.names := by
    rw [components_cons, collapse, List.foldl_cons, push_nil, foldl_push_components_text]
    simp
  have habsolute : isAbsolute ('/' :: location.text) = true := rfl
  simp only [normalize, location.root_cons_text, habsolute, hcollapse]
  rfl

theorem normalize_normalize {path : Text} (h : isAbsolute path = true) :
    normalize (normalize path) = normalize path := by
  obtain ⟨location, hpath | hpath⟩ := normalize_cases h
  · rw [hpath, Location.normalize_text]
  · rw [hpath, Location.normalize_cons_text]

theorem isAbsolute_normalize {path : Text} (h : isAbsolute path = true) :
    isAbsolute (normalize path) = true := by
  obtain ⟨rest, hrest⟩ := isPrefix_normalize h
  rw [← hrest]
  rfl

variable {here : Text}

theorem isAbsolute_absolute (h : isAbsolute here = true) (path : Text) :
    isAbsolute (absolute here path) = true := by
  unfold absolute
  split
  · next hpath => exact isAbsolute_normalize hpath
  · exact isAbsolute_normalize (isAbsolute_join h)

theorem absolute_normal {path : Text} (h : isAbsolute path = true) (hnormal : normalize path = path)
    (here : Text) : absolute here path = path := by
  rw [absolute, if_pos h, hnormal]

theorem absolute_absolute (h : isAbsolute here = true) (path : Text) :
    absolute here (absolute here path) = absolute here path := by
  rw [absolute, if_pos (isAbsolute_absolute h path)]
  unfold absolute
  split
  · next hpath => exact normalize_normalize hpath
  · exact normalize_normalize (isAbsolute_join h)

def namesFrom (here path : Text) : List Text := (components (absolute here path)).filter (· ≠ [])

theorem exists_names_eq (h : isAbsolute here = true) (path : Text) :
    ∃ location : Location, namesFrom here path = location.names := by
  have habsolute := isAbsolute_absolute h path
  obtain ⟨location, hpath⟩ := normalize_cases habsolute
  have hnormal := absolute_absolute h path
  rw [absolute, if_pos habsolute] at hnormal
  rw [hnormal] at hpath
  refine ⟨location, ?_⟩
  obtain hpath | hpath := hpath
  · rw [namesFrom, hpath, Location.filter_components_text]
  · rw [namesFrom, hpath, components_cons, List.filter_cons_of_neg (by simp),
      Location.filter_components_text]

theorem isName_namesFrom (h : isAbsolute here = true) {path name : Text}
    (hname : name ∈ namesFrom here path) : IsName name ∧ .char '/' ∉ name := by
  obtain ⟨location, hlocation⟩ := exists_names_eq h path
  rw [hlocation] at hname
  exact ⟨location.isName name hname, location.noSlash name hname⟩

theorem relative?_absolute (h : isAbsolute here = true) (start target : Text) :
    relative? here (absolute here target) start =
      match steps (· = ·) (namesFrom here start) (namesFrom here target) with
      | [] => some ['.']
      | parts => some (Text.joinWith ['/'] parts) := by
  have hne : absolute here target ≠ [] := by
    intro hnil
    have habsolute := isAbsolute_absolute h target
    rw [hnil] at habsolute
    cases habsolute
  simp only [relative?, if_neg hne, absolute_absolute h]
  rfl

namespace IsSingleRooted

variable {path more : Text}

theorem isAbsolute_eq_true (h : IsSingleRooted path) : isAbsolute path = true := by
  obtain ⟨⟨rest, rfl⟩, -⟩ := h
  rfl

theorem root_eq (h : IsSingleRooted path) : root path = [.char '/'] := by
  obtain ⟨⟨rest, rfl⟩, hsingle⟩ := h
  refine root_cons ?_
  cases rest with
  | nil => rfl
  | cons c rest =>
    have hc : c ≠ '/' := fun heq => hsingle ⟨rest, by rw [heq]; rfl⟩
    simp [isAbsolute, hc]

theorem join (h : IsSingleRooted path) (hmore : isAbsolute more = false) :
    IsSingleRooted (join path more) := by
  obtain ⟨⟨rest, rfl⟩, hsingle⟩ := h
  rw [join_relative _ hmore]
  cases rest with
  | nil =>
    refine ⟨⟨more, rfl⟩, ?_⟩
    rintro ⟨tail, htail⟩
    obtain rfl : .char '/' :: tail = more := List.tail_eq_of_cons_eq htail
    cases hmore
  | cons c rest =>
    have hc : '/' ≠ c := fun heq => hsingle ⟨rest, by rw [← heq]; rfl⟩
    split <;> simp [IsSingleRooted, hc]

theorem normalize_eq (h : IsSingleRooted path) :
    normalize path = (Location.top.follow path).text := Location.normalize_eq h.root_eq

theorem normalize_join (h : IsSingleRooted path) (hmore : isAbsolute more = false) :
    normalize (Posix.join path more) = ((Location.top.follow path).follow more).text := by
  have hpath : path ≠ [] := by
    rintro rfl
    cases h.isAbsolute_eq_true
  rw [(h.join hmore).normalize_eq]
  congr 1
  apply Location.ext
  simp only [Location.follow, foldl_push_components_join hpath hmore, List.reverse_reverse]

theorem absolute_eq (h : IsSingleRooted path) :
    absolute here path = absolute here (Location.top.follow path).text := by
  rw [Location.absolute_text, absolute, if_pos h.isAbsolute_eq_true, h.normalize_eq]

theorem relative?_eq (h : IsSingleRooted path) (target : Location) :
    relative? here target.text path = some ((Location.top.follow path).wayTo target) := by
  rw [← Location.relative?_text _ target here]
  simp only [relative?, h.absolute_eq]

theorem relative?_follow (h : IsSingleRooted path) {target : Text}
    (htarget : IsSingleRooted target) :
    relative? here target path =
      some ((Location.top.follow path).wayTo (Location.top.follow target)) := by
  have hne : target ≠ [] := by
    rintro rfl
    cases htarget.isAbsolute_eq_true
  have hway : relative? here (Location.top.follow target).text path = _ := h.relative?_eq _
  rw [← hway]
  simp only [relative?, if_neg hne, if_neg (Location.text_ne_nil _), htarget.absolute_eq]

end IsSingleRooted

end Relink.Path.Posix
