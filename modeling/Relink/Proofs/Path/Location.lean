import Relink.Proofs.Path.Posix

/-!
Absolute paths in normal form, as the names that lead from the root to a place. Normalizing a path
from one of them walks its components, and a relative path leads from one place back to the other.
-/

namespace Relink.Path.Posix

/-- A place by the names that lead to it from the root. -/
structure Location where
  names : List Text
  isName : ∀ name ∈ names, IsName name
  noSlash : ∀ name ∈ names, .char '/' ∉ name

namespace Location

def top : Location := ⟨[], by simp, by simp⟩

def text (location : Location) : Text := '/' :: Text.joinWith ['/'] location.names

def follow (location : Location) (path : Text) : Location where
  names := ((components path).foldl (push true) location.names.reverse).reverse
  isName name h := isName_foldl_push _ (by simpa using location.isName) name (List.mem_reverse.1 h)
  noSlash name h := by
    obtain h | ⟨h, -⟩ := mem_foldl_push (List.mem_reverse.1 h)
    · exact location.noSlash name (List.mem_reverse.1 h)
    · exact Text.not_mem_of_mem_splitOn h

theorem text_ne_nil (location : Location) : location.text ≠ [] := List.cons_ne_nil _ _

@[ext] theorem ext {a b : Location} (h : a.names = b.names) : a = b := by
  cases a
  cases b
  cases h
  rfl

theorem isAbsolute_text (location : Location) : isAbsolute location.text = true := rfl

theorem components_text (location : Location) (h : location.names ≠ []) :
    components location.text = [] :: location.names := by
  have hsplit : (Text.joinWith ['/'] location.names).splitOn (CodePoint.char '/') =
      location.names :=
    List.splitOn_intercalate (CodePoint.char '/') location.noSlash h
  rw [text, components_cons, components, hsplit]

theorem filter_components_text (location : Location) :
    (components location.text).filter (· ≠ []) = location.names := by
  obtain ⟨names, isName, noSlash⟩ := location
  cases names with
  | nil => rfl
  | cons name names =>
    rw [components_text _ (List.cons_ne_nil name names), List.filter_cons_of_neg (by simp),
      List.filter_eq_self]
    intro other hother
    simpa using (isName other hother).1

theorem foldl_push_components_text (location : Location) (stack : List Text) :
    (components location.text).foldl (push true) stack = location.names.reverse ++ stack := by
  obtain ⟨names, isName, noSlash⟩ := location
  cases names with
  | nil => simp [show components (text ⟨[], isName, noSlash⟩) = [[], []] from rfl, push_nil]
  | cons name names =>
    rw [components_text _ (List.cons_ne_nil name names), List.foldl_cons, push_nil,
      foldl_push_names _ isName]

theorem top_follow_text (location : Location) : top.follow location.text = location := by
  apply ext
  simp [follow, top, foldl_push_components_text]

theorem root_text_append (location : Location) (h : location.names ≠ []) (more : Text) :
    root (location.text ++ more) = [.char '/'] := by
  obtain ⟨names, isName, noSlash⟩ := location
  cases names with
  | nil => exact absurd rfl h
  | cons name names =>
    obtain ⟨hname, -⟩ := List.forall_mem_cons.1 isName
    obtain ⟨hslash, -⟩ := List.forall_mem_cons.1 noSlash
    cases name with
    | nil => exact absurd rfl hname.1
    | cons c name =>
      have hc : c ≠ '/' := fun heq => hslash (heq ▸ List.mem_cons_self)
      cases names <;> simp [text, Text.joinWith, root, hc]

theorem root_text (location : Location) : root location.text = [.char '/'] := by
  by_cases h : location.names = []
  · rw [text, h]
    rfl
  · rw [← List.append_nil location.text, root_text_append location h []]

theorem normalize_eq {path : Text} (h : root path = [.char '/']) :
    normalize path = (top.follow path).text := by
  simp only [normalize, h, isAbsolute_of_root h, List.cons_append, List.nil_append]
  rw [if_neg (List.cons_ne_nil _ _)]
  rfl

@[simp] theorem normalize_text (location : Location) : normalize location.text = location.text := by
  rw [normalize_eq location.root_text, top_follow_text]

@[simp] theorem absolute_text (here : Text) (location : Location) :
    absolute here location.text = location.text := by
  rw [absolute, if_pos location.isAbsolute_text, normalize_text]

theorem getLast?_text (location : Location) (h : location.names ≠ []) :
    location.text.getLast? ≠ some (.char '/') := by
  intro hlast
  obtain ⟨front, hfront⟩ := List.getLast?_eq_some_iff.1 hlast
  have hcomponents : components location.text = components front ++ [[]] := by
    rw [hfront]
    exact List.splitOn_append_cons_self front []
  rw [components_text location h] at hcomponents
  have hmem : [] ∈ location.names := by
    have hlast := congrArg List.getLast? hcomponents
    rw [List.getLast?_concat, List.getLast?_cons_of_ne_nil h] at hlast
    exact List.mem_of_getLast? hlast
  exact (location.isName [] hmem).1 rfl

theorem join_text (location : Location) {more : Text} (h : isAbsolute more = false) :
    join location.text more =
      if location.names = [] then .char '/' :: more else location.text ++ .char '/' :: more := by
  obtain ⟨names, isName, noSlash⟩ := location
  cases names with
  | nil => simp [join, h, text, Text.joinWith]
  | cons name names =>
    have hlast := getLast?_text ⟨name :: names, isName, noSlash⟩ (List.cons_ne_nil _ _)
    rw [join, if_neg (by simp [h]), if_neg (by simp [text] at hlast ⊢; exact hlast),
      if_neg (List.cons_ne_nil _ _)]

theorem root_join (location : Location) {more : Text} (h : ¬("//" : Text) <+: more) :
    root (join location.text more) = [.char '/'] := by
  cases hmore : isAbsolute more with
  | true =>
    obtain ⟨rest, rfl⟩ := List.head?_eq_some_iff.1 (eq_of_beq hmore)
    rw [join, if_pos hmore]
    apply root_cons
    cases rest with
    | nil => rfl
    | cons c rest =>
      have hc : c ≠ '/' := fun heq => h ⟨rest, by rw [heq]; rfl⟩
      simp [isAbsolute, hc]
  | false =>
    rw [join_text location hmore]
    split
    · exact root_cons hmore
    · next hnames => exact root_text_append location hnames _

theorem normalize_join (location : Location) {more : Text} (h : isAbsolute more = false) :
    normalize (join location.text more) = (location.follow more).text := by
  have hsingle : ¬("//" : Text) <+: more := by
    rintro ⟨rest, rfl⟩
    cases h
  rw [normalize_eq (root_join location hsingle)]
  congr 1
  apply ext
  simp only [follow, top, foldl_push_components_join location.text_ne_nil h,
    foldl_push_components_text, List.reverse_nil, List.append_nil]

end Location

end Relink.Path.Posix
