import Relink.Path.Flavour
import Relink.Proofs.Text.Cut

namespace Relink.Path.Windows

variable {path : Text}

@[simp] theorem backslashes_append (a b : Text) :
    backslashes (a ++ b) = backslashes a ++ backslashes b :=
  List.map_append

@[simp] theorem backslashes_nil : backslashes [] = [] := rfl

theorem backslashes_cons (c : CodePoint) (path : Text) :
    backslashes (c :: path) = (if c == '/' then .char '\\' else c) :: backslashes path := rfl

theorem backslashes_eq_self (h : .char '/' ∉ path) : backslashes path = path := by
  induction path with
  | nil => rfl
  | cons c path ih =>
    obtain ⟨hc, hpath⟩ := not_or.1 (List.mem_cons.not.1 h)
    rw [backslashes_cons, ih hpath, if_neg (by simpa using Ne.symm hc)]

theorem slash_not_mem_backslashes (path : Text) : .char '/' ∉ backslashes path := by
  intro h
  obtain ⟨c, -, hc⟩ := List.mem_map.1 h
  split at hc <;> simp_all

@[simp] theorem backslashes_backslashes (path : Text) :
    backslashes (backslashes path) = backslashes path :=
  backslashes_eq_self (slash_not_mem_backslashes path)

theorem forwardSlashes_backslashes (h : .char '\\' ∉ path) :
    Flavour.windows.forwardSlashes (backslashes path) = path := by
  induction path with
  | nil => rfl
  | cons c path ih =>
    obtain ⟨hc, hpath⟩ := not_or.1 (List.mem_cons.not.1 h)
    have hrest := ih hpath
    simp only [Flavour.forwardSlashes] at hrest ⊢
    rw [backslashes_cons, List.map_cons, hrest]
    by_cases hslash : c = '/'
    · simp [hslash]
    · simp [hslash, Ne.symm hc]

theorem forwardSlashes_eq_self (h : .char '\\' ∉ path) :
    Flavour.windows.forwardSlashes path = path := by
  simp only [Flavour.forwardSlashes]
  calc path.map (fun (c : CodePoint) => if c == '\\' then .char '/' else c) = path.map id := by
        apply List.map_congr_left
        intro c hc
        have hne : c ≠ '\\' := fun heq => h (heq ▸ hc)
        simp [hne]
    _ = path := List.map_id path

theorem backslash_not_mem_forwardSlashes (path : Text) :
    .char '\\' ∉ Flavour.windows.forwardSlashes path := by
  intro h
  obtain ⟨c, -, hc⟩ := List.mem_map.1 h
  split at hc <;> simp_all

@[simp] theorem backslashes_forwardSlashes (path : Text) :
    backslashes (Flavour.windows.forwardSlashes path) = backslashes path := by
  simp only [backslashes, Flavour.forwardSlashes, List.map_map]
  apply List.map_congr_left
  intro c _
  by_cases hc : c = '\\' <;> simp [hc]

theorem forwardSlashes_eq_of_backslashes {other : Text} (h : backslashes path = backslashes other) :
    Flavour.windows.forwardSlashes path = Flavour.windows.forwardSlashes other := by
  have hforward (path : Text) :
      Flavour.windows.forwardSlashes (backslashes path) = Flavour.windows.forwardSlashes path := by
    simp only [backslashes, Flavour.forwardSlashes, List.map_map]
    apply List.map_congr_left
    intro c _
    by_cases hc : c = '/' <;> simp [hc]
  rw [← hforward, h, hforward]

@[simp] theorem forwardSlashes_append (a b : Text) : Flavour.windows.forwardSlashes (a ++ b) =
    Flavour.windows.forwardSlashes a ++ Flavour.windows.forwardSlashes b :=
  List.map_append

theorem components_backslashes (h : .char '\\' ∉ path) :
    components (backslashes path) = Posix.components path := by
  simp only [components, Posix.components]
  induction path with
  | nil => rfl
  | cons c path ih =>
    obtain ⟨hc, hpath⟩ := not_or.1 (List.mem_cons.not.1 h)
    rw [backslashes_cons, List.splitOn_cons_eq_if_modifyHead, List.splitOn_cons_eq_if_modifyHead,
      ih hpath]
    by_cases hslash : c = '/'
    · simp [hslash]
    · simp [hslash, Ne.symm hc]

theorem backslashes_joinWith {parts : List Text} (h : ∀ part ∈ parts, .char '/' ∉ part) :
    backslashes (Text.joinWith ['/'] parts) = Text.joinWith ['\\'] parts := by
  induction parts with
  | nil => rfl
  | cons part rest ih =>
    obtain ⟨hpart, hrest⟩ := List.forall_mem_cons.1 h
    cases rest with
    | nil => simpa [Text.joinWith] using backslashes_eq_self hpart
    | cons next rest =>
      have hnext := ih hrest
      simp only [Text.joinWith, List.intercalate_cons_cons] at hnext ⊢
      simp only [backslashes_append, hnext, backslashes_eq_self hpart]
      rfl

theorem isSeparator_backslashes {c : CodePoint} (h : c ≠ '\\') :
    isSeparator (if c == '/' then '\\' else c) = Posix.isSeparator c := by
  by_cases hslash : c = '/'
  · simp [hslash, isSeparator, Posix.isSeparator]
  · simp [hslash, h, isSeparator, Posix.isSeparator]

theorem isSeparator_of_mem (h : .char '\\' ∉ path) {c : CodePoint} (hc : c ∈ path) :
    isSeparator c = Posix.isSeparator c := by
  have hc : c ≠ '\\' := fun heq => h (heq ▸ hc)
  simp [isSeparator, Posix.isSeparator, hc]

theorem isSeparator_eq_false (h : .char '\\' ∉ path) (hslash : .char '/' ∉ path) {c : CodePoint}
    (hc : c ∈ path) :
    isSeparator c = false := by
  have hc' : c ≠ '/' := fun heq => hslash (heq ▸ hc)
  rw [isSeparator_of_mem h hc]
  simpa [Posix.isSeparator] using hc'

theorem startsAtRoot_eq (h : .char '\\' ∉ path) : startsAtRoot path = Posix.isAbsolute path := by
  cases path with
  | nil => rfl
  | cons c path =>
    have hc := isSeparator_of_mem h List.mem_cons_self
    simpa [startsAtRoot, Posix.isAbsolute, Posix.isSeparator] using hc

theorem startsAtRoot_backslashes (path : Text) :
    startsAtRoot (backslashes path) = startsAtRoot path := by
  cases path with
  | nil => rfl
  | cons c path =>
    rw [backslashes_cons]
    by_cases hslash : c = '/'
    · simp [hslash, startsAtRoot, isSeparator]
    · simp [hslash, startsAtRoot]

theorem splitAfterLast_backslashes (h : .char '\\' ∉ path) :
    (backslashes path).splitAfterLast isSeparator =
      (backslashes (path.splitAfterLast Posix.isSeparator).1,
        backslashes (path.splitAfterLast Posix.isSeparator).2) :=
  Text.splitAfterLast_map fun _ hc => isSeparator_backslashes fun heq => h (heq ▸ hc)

theorem trimRight_backslashes (h : .char '\\' ∉ path) :
    (backslashes path).trimRight isSeparator = backslashes (path.trimRight Posix.isSeparator) :=
  Text.trimRight_map fun _ hc => isSeparator_backslashes fun heq => h (heq ▸ hc)

theorem all_backslashes (h : .char '\\' ∉ path) :
    (backslashes path).all isSeparator = path.all Posix.isSeparator := by
  induction path with
  | nil => rfl
  | cons c path ih =>
    obtain ⟨hc, hpath⟩ := not_or.1 (List.mem_cons.not.1 h)
    rw [backslashes_cons, List.all_cons, List.all_cons, isSeparator_backslashes (Ne.symm hc),
      ih hpath]

theorem splitDrive_eq_nil (hcolon : .char ':' ∉ path)
    (hshare : ∀ a b rest, path = a :: b :: rest → isSeparator a = true → isSeparator b = false) :
    splitDrive path = ([], path) := by
  unfold splitDrive
  split
  · next a b rest =>
    have hb : b ≠ ':' := by
      rintro rfl
      simp at hcolon
    have hmark : (isSeparator a && isSeparator b) = false := by
      cases ha : isSeparator a with
      | false => rfl
      | true => exact hshare a b rest rfl ha
    simp [hmark, hb]
  · rfl

theorem suffix_join (path : Text) {more : Text} (hdrive : splitDrive more = ([], more))
    (hstart : startsAtRoot more = false) : more <:+ join path more := by
  have hbehind (share : Bool) (drive : Text) {rest : Text} (h : more <:+ rest) :
      more <:+ if share = true then drive ++ .char '\\' :: rest else drive ++ rest := by
    split
    · exact h.trans ((List.suffix_cons _ _).trans (List.suffix_append _ _))
    · exact h.trans (List.suffix_append _ _)
  simp only [join, hdrive, hstart, Bool.false_eq_true, if_false, true_or, if_true]
  split
  · exact hbehind _ _ ((List.suffix_cons _ _).trans (List.suffix_append _ _))
  · exact hbehind _ _ (List.suffix_append _ _)

structure IsWay (path : Text) : Prop where
  noColon : .char ':' ∉ path
  ne_nil : path ≠ []
  head : ∀ c, path.head? = some c → isSeparator c = false
  last : ∀ c, path.getLast? = some c → isSeparator c = false

theorem IsWay.splitDrive_eq (h : IsWay path) : splitDrive path = ([], path) := by
  refine splitDrive_eq_nil h.noColon ?_
  rintro a b rest rfl ha
  rw [h.head a rfl] at ha
  cases ha

theorem IsWay.startsAtRoot_eq (h : IsWay path) : startsAtRoot path = false := by
  cases path with
  | nil => rfl
  | cons c path => exact h.head c rfl

theorem IsWay.join_eq {a b : Text} (ha : IsWay a) (hb : IsWay b) :
    join a b = a ++ .char '\\' :: b := by
  have hlast := ha.last _ (List.getLast?_eq_some_getLast ha.ne_nil)
  simp [join, ha.splitDrive_eq, hb.splitDrive_eq, hb.startsAtRoot_eq, ha.ne_nil,
    List.getLast?_eq_some_getLast ha.ne_nil, hlast]

theorem IsWay.append {a b : Text} (ha : IsWay a) (hb : IsWay b) : IsWay (a ++ .char '\\' :: b) where
  noColon h := by
    obtain h | h := List.mem_append.1 h
    · exact ha.noColon h
    · exact hb.noColon (by simpa using h)
  ne_nil := by simp
  head c hc := by
    obtain ⟨first, rest, rfl⟩ := List.exists_cons_of_ne_nil ha.ne_nil
    exact ha.head c hc
  last c hc := by
    rw [List.getLast?_append, List.getLast?_cons_of_ne_nil hb.ne_nil,
      List.getLast?_eq_some_getLast hb.ne_nil, Option.some_or] at hc
    exact hb.last c (hc ▸ List.getLast?_eq_some_getLast hb.ne_nil)

theorem foldl_join_eq {first : Text} {parts : List Text} (hfirst : IsWay first)
    (h : ∀ part ∈ parts, IsWay part) :
    parts.foldl join first = Text.joinWith ['\\'] (first :: parts) := by
  induction parts generalizing first with
  | nil => simp [Text.joinWith]
  | cons part parts ih =>
    obtain ⟨hpart, hparts⟩ := List.forall_mem_cons.1 h
    rw [List.foldl_cons, hfirst.join_eq hpart, ih (hfirst.append hpart) hparts]
    cases parts <;> simp [Text.joinWith]

end Relink.Path.Windows
