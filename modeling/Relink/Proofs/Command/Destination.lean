import Relink.Command.Session
import Relink.Proofs.Path.Absolute
import Relink.Proofs.Path.Parts

namespace Relink.Command.Session

open Relink.Path (IsName Parts steps)
open Path.Posix (absolute basename components isAbsolute namesFrom relative?)

variable {here outDir project file a b : Text} {names : List Text}

def Outside (here project file : Text) : Prop := ¬namesFrom here project <+: namesFrom here file

def baseNames (file : Text) : List Text := (Parts.ofText (basename file)).names

/-- The way down from the project does not begin like a way up. -/
def IsPlain (here project file : Text) : Prop :=
  ∀ name rest, namesFrom here file = namesFrom here project ++ name :: rest →
    ¬(".." : Text) <+: name

/-- When two files go to one place. -/
inductive Meets (here project a b : Text) : Prop
  | within (ha : ¬Outside here project a) (h : namesFrom here a = namesFrom here b)
  | outside (ha : Outside here project a) (hb : Outside here project b)
      (h : baseNames a = baseNames b)
  | first (ha : Outside here project a)
      (h : namesFrom here b = namesFrom here project ++ baseNames a)
  | second (hb : Outside here project b)
      (h : namesFrom here a = namesFrom here project ++ baseNames b)

def namesBelow (here project file : Text) : List Text :=
  if namesFrom here project <+: namesFrom here file then
    (namesFrom here file).drop (namesFrom here project).length
  else baseNames file

theorem namesBelow_outside (h : Outside here project file) :
    namesBelow here project file = baseNames file := if_neg h

theorem namesBelow_append (h : namesFrom here file = namesFrom here project ++ names) :
    namesBelow here project file = names := by
  rw [namesBelow, if_pos ⟨names, h.symm⟩, h, List.drop_left]

theorem isPlain_of_drop (h : ∀ name ∈ (namesFrom here file).drop (namesFrom here project).length,
    ¬(".." : Text) <+: name) : IsPlain here project file := by
  intro name rest hnames
  rw [hnames, List.drop_left] at h
  exact h name List.mem_cons_self

theorem exists_of_not_outside (h : ¬Outside here project file) :
    ∃ names, namesFrom here file = namesFrom here project ++ names := by
  obtain ⟨names, hnames⟩ := Decidable.not_not.1 h
  exact ⟨names, hnames.symm⟩

theorem isName_of_append (hhere : isAbsolute here = true)
    (h : namesFrom here file = namesFrom here project ++ names) :
    ∀ name ∈ names, IsName name ∧ .char '/' ∉ name := by
  intro name hname
  have hmem : name ∈ namesFrom here file := h ▸ List.mem_append_right _ hname
  exact Path.Posix.isName_namesFrom hhere hmem

theorem not_mem_basename (file : Text) : .char '/' ∉ basename file := by
  obtain ⟨-, -, hname⟩ := Text.splitAfterLast_spec Path.Posix.isSeparator file
  intro hslash
  simpa [Path.Posix.isSeparator] using hname '/' hslash

theorem baseNames_eq (h : IsName (basename file)) : baseNames file = [basename file] := by
  rw [baseNames, Parts.ofText, Path.Posix.components_eq_singleton (not_mem_basename file)]
  simp [h.1, h.2.1]

theorem ofText_basename (file : Text) : Parts.ofText (basename file) = ⟨[], baseNames file⟩ := by
  have hrelative := Path.Posix.isAbsolute_of_not_mem (not_mem_basename file)
  rw [baseNames, Parts.ofText, Path.Posix.root_eq_nil hrelative]

theorem ofText_joinWith (h : ∀ name ∈ names, IsName name ∧ .char '/' ∉ name) (hne : names ≠ []) :
    Parts.ofText (Text.joinWith ['/'] names) = ⟨[], names⟩ := by
  have hsplit : components (Text.joinWith ['/'] names) = names :=
    List.splitOn_intercalate (CodePoint.char '/') (fun name hname => (h name hname).2) hne
  have hrelative : isAbsolute (Text.joinWith ['/'] names) = false :=
    Path.Posix.isAbsolute_joinWith (fun name hname => (h name hname).1.1)
      fun name hname => (h name hname).2
  rw [Parts.ofText, Path.Posix.root_eq_nil hrelative, hsplit, List.filter_eq_self.2]
  intro name hname
  obtain ⟨hnil, hdot, -⟩ := (h name hname).1
  simp [hnil, hdot]

theorem not_isPrefix_joinWith {name : Text} {rest : List Text} (hname : IsName name)
    (h : ¬(".." : Text) <+: name) : ¬(".." : Text) <+: Text.joinWith ['/'] (name :: rest) := by
  cases rest with
  | nil => simpa [Text.joinWith] using h
  | cons second rest =>
    obtain ⟨c, name, rfl⟩ := List.exists_cons_of_ne_nil hname.1
    cases name with
    | nil => simp [Text.joinWith]
    | cons d name => simpa [Text.joinWith] using h

theorem destination_eq (hhere : isAbsolute here = true) (outDir : Text)
    (hplain : IsPlain here project file) :
    destination here outDir file project =
      ⟨(Parts.ofText outDir).root, (Parts.ofText outDir).names ++
        namesBelow here project file⟩ := by
  simp only [destination, Path.Posix.relative?_absolute hhere]
  by_cases houtside : Outside here project file
  · obtain ⟨rest, hsteps⟩ := Path.exists_steps_eq houtside
    have hup : (".." : Text).isPrefixOf (Text.joinWith ['/'] (['.', '.'] :: rest)) = true := by
      cases rest <;> rfl
    simp only [hsteps, Option.getD_some]
    rw [if_pos hup, ofText_basename, namesBelow_outside houtside]
    rfl
  · obtain ⟨names, hnames⟩ := exists_of_not_outside houtside
    rw [namesBelow_append hnames, hnames, Path.steps_append]
    cases names with
    | nil => rfl
    | cons name rest =>
      have hisName := isName_of_append hhere hnames
      have hdown : ¬(".." : Text).isPrefixOf (Text.joinWith ['/'] (name :: rest)) = true := by
        rw [List.isPrefixOf_iff_prefix]
        exact not_isPrefix_joinWith (hisName name List.mem_cons_self).1 (hplain name rest hnames)
      simp only [Option.getD_some]
      rw [if_neg hdown, ofText_joinWith hisName (List.cons_ne_nil name rest)]
      rfl

theorem namesBelow_eq_iff :
    namesBelow here project a = namesBelow here project b ↔ Meets here project a b := by
  constructor
  · intro h
    by_cases ha : Outside here project a <;> by_cases hb : Outside here project b
    · rw [namesBelow_outside ha, namesBelow_outside hb] at h
      exact .outside ha hb h
    · obtain ⟨names, hnames⟩ := exists_of_not_outside hb
      rw [namesBelow_outside ha, namesBelow_append hnames] at h
      exact .first ha (h ▸ hnames)
    · obtain ⟨names, hnames⟩ := exists_of_not_outside ha
      rw [namesBelow_outside hb, namesBelow_append hnames] at h
      exact .second hb (h ▸ hnames)
    · obtain ⟨names, hnames⟩ := exists_of_not_outside ha
      obtain ⟨names', hnames'⟩ := exists_of_not_outside hb
      rw [namesBelow_append hnames, namesBelow_append hnames'] at h
      exact .within ha (by rw [hnames, hnames', h])
  · intro h
    cases h with
    | within ha h =>
      obtain ⟨names, hnames⟩ := exists_of_not_outside ha
      rw [namesBelow_append hnames, namesBelow_append (h ▸ hnames)]
    | outside ha hb h => rw [namesBelow_outside ha, namesBelow_outside hb, h]
    | first ha h => rw [namesBelow_outside ha, namesBelow_append h]
    | second hb h => rw [namesBelow_outside hb, namesBelow_append h]

theorem destination_eq_iff (hhere : isAbsolute here = true) (outDir : Text)
    (ha : IsPlain here project a) (hb : IsPlain here project b) :
    destination here outDir a project = destination here outDir b project ↔
      Meets here project a b := by
  rw [destination_eq hhere outDir ha, destination_eq hhere outDir hb, ← namesBelow_eq_iff]
  simp

theorem isName_namesBelow (hhere : isAbsolute here = true) (hname : IsName (basename file)) :
    ∀ name ∈ namesBelow here project file, IsName name := by
  intro name hmem
  by_cases houtside : Outside here project file
  · rw [namesBelow_outside houtside, baseNames_eq hname] at hmem
    exact List.mem_singleton.1 hmem ▸ hname
  · obtain ⟨names, hnames⟩ := exists_of_not_outside houtside
    rw [namesBelow_append hnames] at hmem
    exact (isName_of_append hhere hnames name hmem).1

end Relink.Command.Session
