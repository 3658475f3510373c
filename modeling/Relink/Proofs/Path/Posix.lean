import Mathlib.Tactic.SplitIfs
import Relink.Path.Posix
import Relink.Proofs.Path.Component
import Relink.Proofs.Text.Cut

namespace Relink.Path.Posix

theorem components_cons (path : Text) : components ('/' :: path) = [] :: components path := by
  simp [components, List.splitOn_cons_eq_if_modifyHead]

theorem components_append (a b : Text) :
    components (a ++ .char '/' :: b) = components a ++ components b :=
  List.splitOn_append_cons_self a b

theorem components_eq_singleton {name : Text} (h : .char '/' ∉ name) : components name = [name] :=
  List.splitOn_eq_singleton h

theorem joinWith_components (path : Text) : Text.joinWith ['/'] (components path) = path :=
  List.intercalate_splitOn (CodePoint.char '/')

theorem isAbsolute_of_not_mem {path : Text} (h : .char '/' ∉ path) : isAbsolute path = false := by
  cases path with
  | nil => rfl
  | cons c path =>
    have hc : c ≠ '/' := fun heq => h (heq ▸ List.mem_cons_self)
    simp [isAbsolute, hc]

theorem isAbsolute_joinWith {parts : List Text} (hne : ∀ part ∈ parts, part ≠ [])
    (hslash : ∀ part ∈ parts, .char '/' ∉ part) :
    isAbsolute (Text.joinWith ['/'] parts) = false := by
  cases parts with
  | nil => rfl
  | cons part rest =>
    have hpart := isAbsolute_of_not_mem (hslash part List.mem_cons_self)
    cases part with
    | nil => exact absurd rfl (hne [] List.mem_cons_self)
    | cons c part => cases rest <;> simpa [isAbsolute, Text.joinWith] using hpart

theorem root_cons {path : Text} (h : isAbsolute path = false) :
    root ('/' :: path) = [.char '/'] := by
  cases path with
  | nil => rfl
  | cons c path =>
    have hc : c ≠ '/' := fun heq => by simp [isAbsolute, heq] at h
    simp [root, hc]

theorem root_cases (path : Text) :
    root path = [.char '/'] ∨ root path = [.char '/', .char '/'] ∨ root path = [] ∧
      isAbsolute path = false := by
  unfold root
  split
  · exact Or.inl rfl
  · exact Or.inr (Or.inl rfl)
  · exact Or.inl rfl
  · next h =>
    refine Or.inr (Or.inr ⟨rfl, ?_⟩)
    cases path with
    | nil => rfl
    | cons c path =>
      have hc : c ≠ '/' := fun heq => h path (heq ▸ rfl)
      simp [isAbsolute, hc]

theorem isAbsolute_of_root {path : Text} (h : root path = [.char '/']) :
    isAbsolute path = true := by
  cases path with
  | nil => cases h
  | cons c path =>
    by_cases hc : c = '/'
    · subst hc
      rfl
    · simp [root, hc] at h

theorem root_eq_nil {path : Text} (h : isAbsolute path = false) : root path = [] := by
  cases path with
  | nil => rfl
  | cons c path =>
    have hc : c ≠ '/' := fun heq => by simp [isAbsolute, heq] at h
    simp [root, hc]

theorem isPrefix_normalize {path : Text} (h : isAbsolute path = true) :
    ("/" : Text) <+: normalize path := by
  obtain hroot | hroot | ⟨-, hrelative⟩ := root_cases path
  · simp [normalize, hroot]
  · simp [normalize, hroot]
  · rw [h] at hrelative
    cases hrelative

theorem join_relative (path : Text) {more : Text} (h : isAbsolute more = false) :
    join path more =
      if path = [] ∨ path.getLast? = some (.char '/') then path ++ more
      else path ++ .char '/' :: more := by
  rw [join, if_neg (by simp [h])]

theorem root_join_relative {path more : Text} (hpath : path ≠ []) (h : isAbsolute more = false) :
    root (join path more) = root path := by
  have hmore : more.head? ≠ some (.char '/') := by simpa [isAbsolute] using h
  rw [join_relative path h]
  obtain _ | ⟨a, _ | ⟨b, _ | ⟨c, path⟩⟩⟩ := path
  · exact absurd rfl hpath
  · by_cases ha : a = '/' <;> cases more <;> simp_all [root]
  · by_cases ha : a = '/' <;> by_cases hb : b = '/' <;> cases more <;> simp_all [root]
  · split <;> by_cases ha : a = '/' <;> by_cases hb : b = '/' <;> by_cases hc : c = '/' <;>
      simp_all [root]

theorem foldl_push_components_join {path more : Text} (hpath : path ≠ [])
    (h : isAbsolute more = false) (stack : List Text) :
    (components (join path more)).foldl (push true) stack =
      (components more).foldl (push true) ((components path).foldl (push true) stack) := by
  rw [join_relative path h]
  split
  · next hlast =>
    obtain ⟨front, rfl⟩ := List.getLast?_eq_some_iff.1 (hlast.resolve_left hpath)
    have hfront : components (front ++ [.char '/']) = components front ++ [[]] :=
      components_append front []
    rw [List.append_assoc, List.cons_append, List.nil_append, components_append, hfront,
      List.foldl_append, List.foldl_append, List.foldl_cons, push_nil, List.foldl_nil]
  · rw [components_append, List.foldl_append]

theorem isAbsolute_join {path more : Text} (h : isAbsolute path = true) :
    isAbsolute (join path more) = true := by
  unfold join
  split_ifs with hmore
  · exact hmore
  · cases path <;> simp_all [isAbsolute]
  · cases path <;> simp_all [isAbsolute]

theorem suffix_join (candidate more : Text) : more <:+ join candidate more := by
  unfold join
  split_ifs
  · exact List.suffix_refl more
  · exact List.suffix_append candidate more
  · exact ⟨candidate ++ [.char '/'], by simp⟩

theorem mem_join {path more : Text} {c : CodePoint} (h : c ∈ join path more) :
    c ∈ path ∨ c ∈ .char '/' :: more := by
  unfold join at h
  split_ifs at h
  · exact Or.inr (List.mem_cons_of_mem _ h)
  · exact (List.mem_append.1 h).imp id (List.mem_cons_of_mem _)
  · exact List.mem_append.1 h

theorem mem_normalize {path : Text} {c : CodePoint} (h : c ∈ normalize path) :
    c ∈ path ∨ c ∈ ("./" : Text) := by
  simp only [normalize] at h
  split_ifs at h
  · exact Or.inr (List.mem_singleton.1 h ▸ List.mem_cons_self)
  · obtain h | h := List.mem_append.1 h
    · obtain hroot | hroot | ⟨hroot, -⟩ := root_cases path <;> simp_all
    · obtain h | ⟨component, hcomponent, hc⟩ := Text.mem_of_mem_joinWith h
      · simp_all
      · exact Or.inl (Text.mem_of_mem_splitOn (mem_collapse hcomponent).1 hc)

theorem dirname_subset (path : Text) : dirname path ⊆ path := by
  obtain ⟨hpath, -⟩ := Text.splitAfterLast_spec isSeparator path
  have hhead : (path.splitAfterLast isSeparator).1 ⊆ path := by
    intro c hc
    rw [hpath]
    exact List.mem_append_left _ hc
  simp only [dirname]
  split_ifs
  · exact hhead
  · exact fun c hc => hhead (Text.trimRight_subset isSeparator _ hc)

theorem dirname_name {name : Text} (h : .char '/' ∉ name) :
    dirname ('/' :: name) = [.char '/'] := by
  have hsplit : Text.splitAfterLast isSeparator ([] ++ .char '/' :: name) =
      ([] ++ [.char '/'], name) :=
    Text.splitAfterLast_cut h
  rw [List.nil_append, List.nil_append] at hsplit
  simp [dirname, hsplit, isSeparator]

theorem dirname_append {path name : Text} (hpath : path ≠ [])
    (hlast : path.getLast? ≠ some (.char '/')) (hname : .char '/' ∉ name) :
    dirname (path ++ .char '/' :: name) = path := by
  have hsplit : Text.splitAfterLast isSeparator (path ++ .char '/' :: name) =
      (path ++ [.char '/'], name) :=
    Text.splitAfterLast_cut hname
  have hstop : ∀ c, path.getLast? = some c → isSeparator c = false := by
    intro c hc
    simpa [isSeparator] using fun heq : c = '/' => hlast (heq ▸ hc)
  have hmixed : ¬(path ++ [.char '/'] : Text).all isSeparator = true := by
    intro hall
    have hc := hstop _ (List.getLast?_eq_some_getLast hpath)
    rw [List.all_eq_true.1 hall _ (List.mem_append_left _ (List.getLast_mem hpath))] at hc
    cases hc
  simp only [dirname, hsplit]
  rw [if_neg hmixed]
  exact Text.trimRight_append hstop (by simp [isSeparator])

theorem splitExtension_spec (path : Text) :
    path = (splitExtension path).1 ++ (splitExtension path).2 ∧
    ((splitExtension path).2 = [] ∨
      ∃ rest, (splitExtension path).2 = .char '.' :: rest ∧ .char '.' ∉ rest ∧
        .char '/' ∉ rest) := by
  obtain ⟨hpath, hnil | ⟨rest, hrest, hdot, hseparator⟩⟩ :=
    Path.splitExtension_spec isSeparator path
  · exact ⟨hpath, Or.inl hnil⟩
  · refine ⟨hpath, Or.inr ⟨rest, hrest, hdot, ?_⟩⟩
    intro hslash
    simpa [isSeparator] using hseparator '/' hslash

end Relink.Path.Posix
