import Mathlib.Data.List.Forall2
import Mathlib.Tactic.SplitIfs
import Relink.Path.Component
import Relink.Proofs.Text.Cut

namespace Relink.Path

def IsName (component : Text) : Prop :=
  component ≠ [] ∧ component ≠ [.char '.'] ∧ component ≠ [.char '.', .char '.']

theorem isName_of_length {name : Text} (h : 3 ≤ name.length) : IsName name := by
  refine ⟨?_, ?_, ?_⟩ <;>
  · rintro rfl
    revert h
    decide

theorem push_name {rooted : Bool} {name : Text} (components : List Text) (h : IsName name) :
    push rooted components name = name :: components := by
  unfold push
  rw [if_neg (by simp [h.1, h.2.1]), if_neg h.2.2]

theorem push_nil (rooted : Bool) (components : List Text) :
    push rooted components [] = components := by
  simp [push]

theorem push_dot (rooted : Bool) (components : List Text) :
    push rooted components [.char '.'] = components := by
  simp [push]

theorem push_up {name : Text} (components : List Text) (h : IsName name) :
    push true (name :: components) [.char '.', .char '.'] = components := by
  simp [push, h.2.2]

theorem isName_cases (component : Text) :
    component = [] ∨ component = [.char '.'] ∨ component = [.char '.', .char '.'] ∨
      IsName component := by
  unfold IsName
  by_cases component = [] <;> by_cases component = [.char '.'] <;>
    by_cases component = [.char '.', .char '.'] <;>
    simp [*]

theorem mem_push {rooted : Bool} {components : List Text} {component name : Text}
    (h : name ∈ push rooted components component) :
    name ∈ components ∨ name = component ∧ name ≠ [] := by
  obtain rfl | rfl | rfl | hname := isName_cases component
  · exact Or.inl (push_nil rooted components ▸ h)
  · exact Or.inl (push_dot rooted components ▸ h)
  · cases components with
    | nil => cases rooted <;> simp_all [push]
    | cons last rest =>
      by_cases hlast : last = [.char '.', .char '.']
      · simp_all [push]
      · simp [push, hlast] at h
        exact Or.inl (List.mem_cons_of_mem _ h)
  · rw [push_name components hname] at h
    obtain rfl | h := List.mem_cons.1 h
    · exact Or.inr ⟨rfl, hname.1⟩
    · exact Or.inl h

theorem push_up_root (components : List Text) (h : ∀ name ∈ components, IsName name) :
    push true components [.char '.', .char '.'] = components.tail := by
  cases components with
  | nil => rfl
  | cons last rest => exact push_up rest (h last List.mem_cons_self)

theorem isName_push {components : List Text} (h : ∀ name ∈ components, IsName name)
    (component : Text) : ∀ name ∈ push true components component, IsName name := by
  obtain rfl | rfl | rfl | hname := isName_cases component
  · rwa [push_nil]
  · rwa [push_dot]
  · rw [push_up_root components h]
    exact fun name hname => h name (List.mem_of_mem_tail hname)
  · rw [push_name components hname]
    exact List.forall_mem_cons.2 ⟨hname, h⟩

theorem isName_foldl_push {components : List Text} (more : List Text)
    (h : ∀ name ∈ components, IsName name) :
    ∀ name ∈ more.foldl (push true) components, IsName name := by
  induction more generalizing components with
  | nil => exact h
  | cons component more ih => exact ih (isName_push h component)

theorem mem_foldl_push {rooted : Bool} {components more : List Text} {name : Text}
    (h : name ∈ more.foldl (push rooted) components) :
    name ∈ components ∨ name ∈ more ∧ name ≠ [] := by
  induction more generalizing components with
  | nil => exact Or.inl h
  | cons component more ih =>
    obtain h | ⟨h, hne⟩ := ih h
    · obtain h | ⟨rfl, hne⟩ := mem_push h
      · exact Or.inl h
      · exact Or.inr ⟨List.mem_cons_self, hne⟩
    · exact Or.inr ⟨List.mem_cons_of_mem _ h, hne⟩

theorem mem_collapse {rooted : Bool} {components : List Text} {name : Text}
    (h : name ∈ collapse rooted components) : name ∈ components ∧ name ≠ [] := by
  obtain h | h := mem_foldl_push (List.mem_reverse.1 h)
  · cases h
  · exact h

theorem foldl_push_names {rooted : Bool} (components : List Text) {names : List Text}
    (h : ∀ name ∈ names, IsName name) :
    names.foldl (push rooted) components = names.reverse ++ components := by
  induction names generalizing components with
  | nil => rfl
  | cons name names ih =>
    obtain ⟨hname, hnames⟩ := List.forall_mem_cons.1 h
    rw [List.foldl_cons, push_name components hname, ih _ hnames, List.reverse_cons,
      List.append_assoc]
    rfl

theorem foldl_push_ups {names : List Text} (components : List Text)
    (h : ∀ name ∈ names, IsName name) :
    (names.map fun _ => ([.char '.', .char '.'] : Text)).foldl (push true) (names ++ components) =
      components := by
  induction names with
  | nil => rfl
  | cons name names ih =>
    obtain ⟨hname, hnames⟩ := List.forall_mem_cons.1 h
    rw [List.map_cons, List.foldl_cons, List.cons_append, push_up _ hname, ih hnames]

theorem forall₂_push {R : Text → Text → Prop}
    (hR : ∀ {a b}, R a b → a = b ∨ IsName a ∧ IsName b) {components components' : List Text}
    (hcomponents : List.Forall₂ R components components') {component component' : Text}
    (h : R component component') :
    List.Forall₂ R (push true components component) (push true components' component') := by
  obtain rfl | ⟨hname, hname'⟩ := hR h
  · obtain rfl | rfl | rfl | hname := isName_cases component
    · rwa [push_nil, push_nil]
    · rwa [push_dot, push_dot]
    · cases hcomponents with
      | nil => exact .nil
      | @cons last last' rest rest' hlast hrest =>
        obtain rfl | ⟨hname, hname'⟩ := hR hlast
        · by_cases hup : last = [.char '.', .char '.']
          · subst hup
            exact .cons h (.cons hlast hrest)
          · simpa [push, hup] using hrest
        · rwa [push_up rest hname, push_up rest' hname']
    · rw [push_name _ hname, push_name _ hname]
      exact .cons h hcomponents
  · rw [push_name _ hname, push_name _ hname']
    exact .cons h hcomponents

theorem forall₂_foldl_push {R : Text → Text → Prop}
    (hR : ∀ {a b}, R a b → a = b ∨ IsName a ∧ IsName b) {more more' : List Text}
    (hmore : List.Forall₂ R more more') {components components' : List Text}
    (hcomponents : List.Forall₂ R components components') :
    List.Forall₂ R (more.foldl (push true) components) (more'.foldl (push true) components') := by
  induction hmore generalizing components components' with
  | nil => exact hcomponents
  | cons h _ ih => exact ih (forall₂_push hR hcomponents h)

theorem dropShared_congr {same same' : Text → Text → Bool} {start target : List Text}
    (h : ∀ a ∈ start, ∀ b ∈ target, same a b = same' a b) :
    dropShared same start target = dropShared same' start target := by
  induction start generalizing target with
  | nil => simp [dropShared]
  | cons a start ih =>
    cases target with
    | nil => simp [dropShared]
    | cons b target =>
      have hrest := ih fun a ha b hb =>
        h a (List.mem_cons_of_mem _ ha) b (List.mem_cons_of_mem _ hb)
      rw [dropShared, dropShared, h a List.mem_cons_self b List.mem_cons_self, hrest]

theorem dropShared_spec (same : Text → Text → Bool) (a b : List Text) :
    ∃ shared shared', List.Forall₂ (fun x y => same x y = true) shared shared' ∧
      a = shared ++ (dropShared same a b).1 ∧ b = shared' ++ (dropShared same a b).2 := by
  induction a generalizing b with
  | nil => exact ⟨[], [], .nil, by simp [dropShared]⟩
  | cons x a ih =>
    cases b with
    | nil => exact ⟨[], [], .nil, by simp [dropShared]⟩
    | cons y b =>
      by_cases h : same x y = true
      · obtain ⟨shared, shared', hshared, ha, hb⟩ := ih b
        refine ⟨x :: shared, y :: shared', .cons h hshared, ?_, ?_⟩
        · simpa [dropShared, h] using ha
        · simpa [dropShared, h] using hb
      · exact ⟨[], [], .nil, by simp [dropShared, h]⟩

theorem exists_dropShared_eq (a b : List Text) :
    ∃ shared, a = shared ++ (dropShared (· = ·) a b).1 ∧
      b = shared ++ (dropShared (· = ·) a b).2 := by
  obtain ⟨shared, shared', hshared, ha, hb⟩ := dropShared_spec (· = ·) a b
  obtain rfl : shared = shared' := by
    simpa only [decide_eq_true_eq, List.forall₂_eq_eq_eq] using hshared
  exact ⟨shared, ha, hb⟩

theorem exists_foldl_push_steps (same : Text → Text → Bool) (refl : ∀ name, same name name = true)
    {start target : List Text} (hstart : ∀ name ∈ start, IsName name)
    (htarget : ∀ name ∈ target, IsName name) :
    ∃ reached, List.Forall₂ (fun x y => same x y = true) reached target ∧
      (steps same start target).foldl (push true) start.reverse = reached.reverse := by
  obtain ⟨shared, shared', hshared, ha, hb⟩ := dropShared_spec same start target
  rw [steps]
  generalize dropShared same start target = parts at ha hb
  obtain ⟨up, down⟩ := parts
  subst ha hb
  refine ⟨shared ++ down, List.rel_append hshared (List.forall₂_same.2 fun name _ => refl name), ?_⟩
  have hup : ∀ name ∈ up.reverse, IsName name := fun name h =>
    hstart name (List.mem_append_right _ (List.mem_reverse.1 h))
  have hdown : ∀ name ∈ down, IsName name := fun name h => htarget name (List.mem_append_right _ h)
  -- The last name is on top of the stack: the names that are not shared go, then the others come.
  have hups : (up.map fun _ => ([.char '.', .char '.'] : Text)) =
      up.reverse.map fun _ => [.char '.', .char '.'] := by
    rw [List.map_const', List.map_const', List.length_reverse]
  rw [List.foldl_append, List.reverse_append, hups, foldl_push_ups _ hup, foldl_push_names _ hdown,
    List.reverse_append]

theorem foldl_push_steps {start target : List Text} (hstart : ∀ name ∈ start, IsName name)
    (htarget : ∀ name ∈ target, IsName name) :
    (steps (· = ·) start target).foldl (push true) start.reverse = target.reverse := by
  obtain ⟨reached, hreached, hsteps⟩ :=
    exists_foldl_push_steps (· = ·) (fun _ => decide_eq_true rfl) hstart htarget
  obtain rfl : reached = target := by
    simpa only [decide_eq_true_eq, List.forall₂_eq_eq_eq] using hreached
  exact hsteps

theorem steps_append (start rest : List Text) : steps (· = ·) start (start ++ rest) = rest := by
  have hdrop : dropShared (· = ·) start (start ++ rest) = ([], rest) := by
    induction start with
    | nil => simp [dropShared]
    | cons name start ih => simpa [dropShared] using ih
  simp [steps, hdrop]

theorem exists_steps_eq {start target : List Text} (h : ¬start <+: target) :
    ∃ rest, steps (· = ·) start target = [.char '.', .char '.'] :: rest := by
  obtain ⟨shared, ha, hb⟩ := exists_dropShared_eq start target
  rw [steps]
  generalize dropShared (· = ·) start target = parts at ha hb
  obtain ⟨up, down⟩ := parts
  cases up with
  | nil =>
    rw [List.append_nil] at ha
    exact absurd ⟨down, by rw [ha]; exact hb.symm⟩ h
  | cons name up => exact ⟨_, rfl⟩

theorem mem_steps {same : Text → Text → Bool} {start target : List Text} {step : Text}
    (h : step ∈ steps same start target) : step = [.char '.', .char '.'] ∨ step ∈ target := by
  obtain ⟨-, shared, -, -, hb⟩ := dropShared_spec same start target
  rw [steps] at h
  obtain h | h := List.mem_append.1 h
  · obtain ⟨-, -, rfl⟩ := List.mem_map.1 h
    exact Or.inl rfl
  · refine Or.inr ?_
    rw [hb]
    exact List.mem_append_right _ h

section Extension

variable {isSeparator : CodePoint → Bool} {root rest : Text}

theorem splitExtension_spec (isSeparator : CodePoint → Bool) (path : Text) :
    path = (splitExtension isSeparator path).1 ++ (splitExtension isSeparator path).2 ∧
    ((splitExtension isSeparator path).2 = [] ∨
      ∃ rest, (splitExtension isSeparator path).2 = .char '.' :: rest ∧ .char '.' ∉ rest ∧
        ∀ c ∈ rest, isSeparator c = false) := by
  obtain ⟨hpath, -, hname⟩ := Text.splitAfterLast_spec isSeparator path
  simp only [splitExtension]
  generalize path.splitAfterLast isSeparator = parts at hpath hname
  obtain ⟨directory, name⟩ := parts
  obtain ⟨hcut, hlast, hrest⟩ := Text.splitAfterLast_spec (· == .char '.') name
  simp only
  generalize name.splitAfterLast (· == .char '.') = parts at hcut hlast hrest
  obtain ⟨stem, rest⟩ := parts
  obtain rfl | ⟨stem, dot, rfl⟩ := List.eq_nil_or_concat stem
  · exact ⟨(List.append_nil path).symm, Or.inl rfl⟩
  · obtain rfl : dot = .char '.' := by simpa using hlast dot (by simp)
    have hdot : .char '.' ∉ rest := fun h => by simpa using hrest '.' h
    have hseparator : ∀ c ∈ rest, isSeparator c = false :=
      fun c hc => hname c (hcut ▸ List.mem_append_right _ hc)
    split
    · next h => simp at h
    · next heq =>
      cases heq
      split
      · exact ⟨(List.append_nil path).symm, Or.inl rfl⟩
      · refine ⟨?_, Or.inr ⟨rest, rfl, hdot, hseparator⟩⟩
        rw [hpath, hcut]
        simp

def HasStem (isSeparator : CodePoint → Bool) (path : Text) : Prop :=
  ∃ c ∈ (path.splitAfterLast isSeparator).2, c ≠ '.'

theorem splitExtension_append (hdot : isSeparator '.' = false) (hrest : .char '.' ∉ rest)
    (hseparator : ∀ c ∈ rest, isSeparator c = false) :
    (HasStem isSeparator root →
      splitExtension isSeparator (root ++ .char '.' :: rest) = (root, .char '.' :: rest)) ∧
    (¬HasStem isSeparator root →
      splitExtension isSeparator (root ++ .char '.' :: rest) =
        (root ++ .char '.' :: rest, [])) := by
  obtain ⟨hroot, hlast, hname⟩ := Text.splitAfterLast_spec isSeparator root
  unfold HasStem
  generalize root.splitAfterLast isSeparator = parts at hroot hlast hname
  obtain ⟨directory, name⟩ := parts
  have hsplit : (root ++ .char '.' :: rest).splitAfterLast isSeparator =
      (directory, name ++ .char '.' :: rest) := by
    rw [hroot, List.append_assoc]
    refine Text.splitAfterLast_append hlast ?_
    simp only [List.forall_mem_append, List.forall_mem_cons]
    exact ⟨hname, hdot, hseparator⟩
  simp only [splitExtension, hsplit, Text.splitAfterLast_cut hrest]
  split
  · next h => simp at h
  · next heq =>
    cases heq
    constructor
    · rintro ⟨c, hc, hne⟩
      rw [if_neg, List.dropLast_concat, ← hroot]
      intro hall
      exact hne (by simpa using List.all_eq_true.1 hall c (List.mem_append_left _ hc))
    · intro hdots
      rw [if_pos]
      rw [List.all_append, Bool.and_eq_true, List.all_eq_true]
      refine ⟨fun c hc => ?_, rfl⟩
      by_contra hne
      exact hdots ⟨c, hc, by simpa using hne⟩

end Extension

end Relink.Path
