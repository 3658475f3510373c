import Mathlib.Data.List.Induction
import Relink.Proofs.Storage.Leading
import Relink.Proofs.Storage.Writing
import Relink.Proofs.Text.Utf8

namespace Relink.Disk

open Relink.Path (IsName Parts)
open Path.Posix (components)

variable {disk middle made other : Disk} {path : Parts} {start front names place : List Text}
  {name : Text} {node : Node}

namespace Closed

theorem lookup_startOf (h : disk.Closed) (text : Text) :
    disk.lookup (startOf disk.here text) = some .directory := by
  unfold startOf
  split
  · rfl
  · exact h.here

theorem put (h : disk.Closed) (hnames : names ≠ [])
    (hparent : disk.lookup names.dropLast = some .directory)
    (hold : disk.lookup names = some .directory → node = .directory) :
    (disk.put names node).Closed := by
  have kept : ∀ other, disk.lookup other = some .directory →
      (disk.put names node).lookup other = some .directory := by
    intro other hother
    by_cases hsame : other = names
    · subst hsame
      rw [lookup_put_self hnames, hold hother]
    · rwa [lookup_put_of_ne hsame]
  refine ⟨kept _ h.here, ?_⟩
  intro other node' hother
  apply kept
  by_cases hsame : other = names
  · exact hsame ▸ hparent
  · rw [lookup_put_of_ne hsame] at hother
    exact h.parent other node' hother

end Closed

theorem keeps_put (hold : ∀ old, disk.lookup names = some old → node.seen = old.seen)
    (hnames : names ≠ []) : disk.Keeps (disk.put names node) where
  here := rfl
  lookup other old hother := by
    by_cases hsame : other = names
    · subst hsame
      exact ⟨node, lookup_put_self hnames, hold old hother⟩
    · exact ⟨old, by rwa [lookup_put_of_ne hsame], rfl⟩

theorem Keeps.put_left (h : disk.Keeps other) (hnames : names ≠ [])
    (hnode : other.lookup names = some node) : (disk.put names node).Keeps other where
  here := h.here
  lookup names' node' hlookup := by
    by_cases hsame : names' = names
    · subst hsame
      rw [lookup_put_self hnames] at hlookup
      cases hlookup
      exact ⟨_, hnode, rfl⟩
    · rw [lookup_put_of_ne hsame] at hlookup
      exact h.lookup names' node' hlookup

theorem toText_ne_nil (path : Parts) : path.toText ≠ [] := by
  simp only [Parts.toText]
  split
  · simp
  · assumption

theorem leads_iff {links : Nat} :
    disk.Leads links start names place ↔
      disk.walk links start names = .ok (place, disk.lookup place) :=
  ⟨Leads.walk_eq, fun h => (walk_eq_ok_iff.1 h).1⟩

theorem finds_toText_iff (closed : disk.Closed) (proper : path.Proper) :
    disk.Finds path.toText place ↔
      Nameable path.toText ∧
        disk.Leads maxLinks (startOf disk.here path.root) path.names place := by
  obtain ⟨still, hstill, hcomponents⟩ := proper.components_toText
  have hleads : disk.Leads maxLinks (startOf disk.here path.toText) (components path.toText) place ↔
      disk.Leads maxLinks (startOf disk.here path.root) path.names place := by
    rw [hcomponents, startOf_toText proper, leads_iff, leads_iff,
      walk_still hstill (closed.lookup_startOf _)]
  constructor
  · exact fun h => ⟨h.nameable, hleads.1 h.leads⟩
  · exact fun h => ⟨h.1, toText_ne_nil path, hleads.2 h.2⟩

theorem isDirectory_toText (closed : disk.Closed) (proper : path.Proper) :
    disk.isDirectory path.toText = true ↔ Nameable path.toText ∧
      ∃ place, disk.Leads maxLinks (startOf disk.here path.root) path.names place ∧
        disk.lookup place = some .directory := by
  simp only [isDirectory_iff, finds_toText_iff closed proper]
  constructor
  · exact fun ⟨place, ⟨hnameable, hleads⟩, hplace⟩ => ⟨hnameable, place, hleads, hplace⟩
  · exact fun ⟨hnameable, place, hleads, hplace⟩ => ⟨place, ⟨hnameable, hleads⟩, hplace⟩

section Last

variable (closed : disk.Closed) (proper : path.Proper) (hnames : path.names = front ++ [name])
include closed proper hnames

theorem newPlace_toText (nameable : Nameable path.toText) :
    disk.newPlace path.toText =
      match disk.walk maxLinks (startOf disk.here path.root) front with
      | .error kind => .error kind
      | .ok (parent, some .directory) =>
        if name = [.char '.', .char '.'] then .error .alreadyExists
        else if maxNameBytes < Text.pathSize name then .error .nameTooLong
        else .ok (parent, name)
      | .ok (_, some _) => .error .notDirectory
      | .ok (_, none) => .error .notFound := by
  obtain ⟨still, hstill, hcomponents⟩ := proper.components_toText
  obtain ⟨husable, hlength⟩ := nameable
  have hname : name ≠ [] ∧ name ≠ [.char '.'] ∧ .char '/' ∉ name :=
    proper.names name (by simp [hnames])
  have hfilter : (components path.toText).filter (· ≠ []) =
      still.filter (· ≠ []) ++ front ++ [name] := by
    rw [hcomponents, hnames, List.filter_append, List.append_assoc]
    congr 1
    rw [List.filter_eq_self]
    intro other hother
    simpa using (proper.names other (hnames ▸ hother)).1
  have hwalk : disk.walk maxLinks (startOf disk.here path.toText) (still.filter (· ≠ []) ++ front) =
      disk.walk maxLinks (startOf disk.here path.root) front := by
    rw [startOf_toText proper]
    exact walk_still (fun name h => hstill name (List.mem_filter.1 h).1) (closed.lookup_startOf _)
  simp only [newPlace, husable, if_neg (Nat.not_lt.2 hlength), hfilter, List.getLast?_concat,
    List.dropLast_concat, hwalk, bind, Except.bind, pure, Except.pure, throw, throwThe,
    MonadExceptOf.throw]
  cases disk.walk maxLinks (startOf disk.here path.root) front with
  | error kind => rfl
  | ok found =>
    obtain ⟨parent, _ | _ | _ | _⟩ := found <;> simp only [hname.2.1, false_or]

theorem makeDirectory_of_missing (nameable : Nameable path.toText)
    (h : disk.walk maxLinks (startOf disk.here path.root) front = .error .notFound ∨
      ∃ place, disk.walk maxLinks (startOf disk.here path.root) front = .ok (place, none)) :
    disk.makeDirectory path.toText = .error .notFound := by
  rw [makeDirectory, newPlace_toText closed proper hnames nameable]
  obtain h | ⟨place, h⟩ := h <;> rw [h] <;> rfl

theorem makeDirectory_of_leads (nameable : Nameable path.toText)
    (hleads : disk.Leads maxLinks (startOf disk.here path.root) front place)
    (hplace : disk.lookup place = some .directory) :
    disk.makeDirectory path.toText =
      if name = [.char '.', .char '.'] then .error .alreadyExists
      else if maxNameBytes < Text.pathSize name then .error .nameTooLong
      else if disk.lookup (place ++ [name]) = none then .ok (disk.put (place ++ [name]) .directory)
      else .error .alreadyExists := by
  rw [makeDirectory, newPlace_toText closed proper hnames nameable, hleads.walk_eq, hplace]
  dsimp only
  split_ifs with hup hlength hnone
  · rfl
  · rfl
  · simp only [bind, Except.bind, hnone]
    rfl
  · obtain ⟨node, hnode⟩ := Option.ne_none_iff_exists'.1 hnone
    simp only [bind, Except.bind, hnode]
    rfl

end Last

theorem nameable_of_makeDirectory {path : Text} (h : disk.makeDirectory path = .ok made) :
    Nameable path := by
  obtain ⟨found, hplace, -⟩ := bind_eq_ok h
  simp only [newPlace, bind, Except.bind, throw, throwThe, MonadExceptOf.throw] at hplace
  split at hplace
  · cases hplace
  next husable =>
  split at hplace
  · cases hplace
  next hlength =>
    exact ⟨Option.eq_none_iff_forall_ne_some.2 fun kind => husable kind, Nat.not_lt.1 hlength⟩

inductive Settles (disk : Disk) (start front : List Text) (name : Text) : Disk → Prop
  | there {place : List Text} (hleads : disk.Leads maxLinks start (front ++ [name]) place)
      (hplace : disk.lookup place = some .directory) : Settles disk start front name disk
  | fresh {place : List Text} (hleads : disk.Leads maxLinks start front place)
      (hplace : disk.lookup place = some .directory) (hname : IsName name)
      (hlength : Text.pathSize name ≤ maxNameBytes)
      (hnone : disk.lookup (place ++ [name]) = none) :
      Settles disk start front name (disk.put (place ++ [name]) .directory)

namespace Settles

theorem exists_front (h : disk.Settles start front name made) :
    ∃ place, disk.Leads maxLinks start front place ∧ disk.lookup place = some .directory := by
  cases h with
  | there hleads hplace => exact hleads.exists_front (by simp [hplace])
  | fresh hleads hplace => exact ⟨_, hleads, hplace⟩

theorem keeps (h : disk.Settles start front name made) : disk.Keeps made := by
  cases h with
  | there => exact .refl disk
  | fresh _ _ _ _ hnone => exact keeps_put (by simp [hnone]) (by simp)

theorem closed (h : disk.Settles start front name made) (closed : disk.Closed) : made.Closed := by
  cases h with
  | there => exact closed
  | fresh _ hplace => exact closed.put (by simp) (by simpa using hplace) fun _ => rfl

theorem new (h : disk.Settles start front name made) (names : List Text) :
    made.lookup names = disk.lookup names ∨
      disk.lookup names = none ∧ made.lookup names = some .directory := by
  cases h with
  | there => exact .inl rfl
  | @fresh place _ _ _ _ hnone =>
    by_cases hsame : names = place ++ [name]
    · subst hsame
      exact .inr ⟨hnone, lookup_put_self (by simp)⟩
    · exact .inl (lookup_put_of_ne hsame)

theorem eq_of_leads (h : disk.Settles start front name made)
    (hleads : disk.Leads maxLinks start (front ++ [name]) place)
    (hplace : disk.lookup place = some .directory) : made = disk := by
  cases h with
  | there => rfl
  | fresh hfront hparent hname hlength hnone =>
    obtain rfl := (hfront.concat hparent hname hlength (by simp [hnone])).unique hleads
    rw [hnone] at hplace
    cases hplace

end Settles

theorem settles_of_makeDirectory (closed : disk.Closed) (proper : path.Proper)
    (hnames : path.names = front ++ [name]) (h : disk.makeDirectory path.toText = .ok made) :
    disk.Settles (startOf disk.here path.root) front name made := by
  have nameable := nameable_of_makeDirectory h
  have hplace := newPlace_toText closed proper hnames nameable
  cases hwalk : disk.walk maxLinks (startOf disk.here path.root) front with
  | error kind =>
    rw [hwalk] at hplace
    rw [makeDirectory, hplace] at h
    cases h
  | ok found =>
    obtain ⟨place, found⟩ := found
    obtain ⟨hleads, rfl⟩ := walk_eq_ok_iff.1 hwalk
    by_cases hdirectory : disk.lookup place = some .directory
    · rw [makeDirectory_of_leads closed proper hnames nameable hleads hdirectory] at h
      split_ifs at h with hup hlength hnone
      cases h
      obtain ⟨hempty, hdot, -⟩ := proper.names name (by simp [hnames])
      exact .fresh hleads hdirectory ⟨hempty, hdot, hup⟩ (Nat.not_lt.1 hlength) hnone
    · rw [hwalk] at hplace
      cases hnode : disk.lookup place with
      | none =>
        rw [hnode] at hplace
        rw [makeDirectory, hplace] at h
        cases h
      | some node =>
        cases node <;> rw [hnode] at hplace hdirectory
        · exact absurd rfl hdirectory
        all_goals
          rw [makeDirectory, hplace] at h
          cases h

theorem settleDirectory_iff (closed : disk.Closed) (proper : path.Proper)
    (hnames : path.names = front ++ [name]) :
    disk.settleDirectory path.toText = .ok made ↔ Nameable path.toText ∧
      disk.Settles (startOf disk.here path.root) front name made := by
  constructor
  · intro h
    unfold settleDirectory at h
    split at h
    · next hmake =>
      cases h
      exact ⟨nameable_of_makeDirectory hmake, settles_of_makeDirectory closed proper hnames hmake⟩
    · cases h
    · split at h
      · next hdirectory =>
        cases h
        obtain ⟨nameable, place, hleads, hplace⟩ := (isDirectory_toText closed proper).1 hdirectory
        exact ⟨nameable, .there (hnames ▸ hleads) hplace⟩
      · cases h
  · rintro ⟨nameable, h⟩
    obtain ⟨place, hleads, hplace⟩ := h.exists_front
    have hmake := makeDirectory_of_leads closed proper hnames nameable hleads hplace
    cases h with
    | there hlast hdirectory =>
      have hthere : disk.isDirectory path.toText = true :=
        (isDirectory_toText closed proper).2 ⟨nameable, _, hnames ▸ hlast, hdirectory⟩
      have hrefused : disk.makeDirectory path.toText = .error .alreadyExists ∨
          disk.makeDirectory path.toText = .error .nameTooLong := by
        rw [hmake]
        split_ifs with hup hlength hnone
        · exact .inl rfl
        · exact .inr rfl
        · obtain ⟨hempty, hdot, -⟩ := proper.names name (by simp [hnames])
          have hmissing := hleads.concat hplace ⟨hempty, hdot, hup⟩ (Nat.not_lt.1 hlength)
            (by simp [hnone])
          obtain rfl := hmissing.unique hlast
          rw [hnone] at hdirectory
          cases hdirectory
        · exact .inl rfl
      obtain hrefused | hrefused := hrefused <;> rw [settleDirectory, hrefused] <;>
        exact if_pos hthere
    | fresh hleads' hplace' hname hlength hnone =>
      obtain rfl := hleads.unique hleads'
      rw [if_neg hname.2.2, if_neg (Nat.not_lt.2 hlength), if_pos hnone] at hmake
      rw [settleDirectory, hmake]

theorem makeDirectory_of_names_nil (closed : disk.Closed) (proper : path.Proper)
    (hnames : path.names = []) : disk.makeDirectory path.toText = .error .alreadyExists := by
  obtain ⟨root, names⟩ := path
  subst hnames
  have hwalk : disk.walk maxLinks disk.here [] = .ok (disk.here, some .directory) := by
    rw [(Leads.stop maxLinks disk.here).walk_eq, closed.here]
  obtain rfl | rfl | rfl := proper.root
  · have hcomponents : (components ['.']).filter (· ≠ []) = [[.char '.']] := rfl
    have hstart : startOf disk.here [.char '.'] = disk.here := rfl
    have hlength : ¬maxPathBytes < Text.pathSize ['.'] := by decide
    have husable : obstacle? ['.'] = none := rfl
    have htext : Parts.toText ⟨[], []⟩ = [.char '.'] := rfl
    simp only [makeDirectory, newPlace, htext, hcomponents, hstart, husable, if_neg hlength,
      List.getLast?_singleton, List.dropLast_singleton, hwalk, bind, Except.bind, throw, throwThe,
      MonadExceptOf.throw, true_or, if_true]
  · rfl
  · rfl

theorem nameable_of_names_nil (proper : path.Proper) (hnames : path.names = []) :
    Nameable path.toText := by
  obtain ⟨root, names⟩ := path
  subst hnames
  obtain rfl | rfl | rfl := proper.root <;> exact ⟨by decide, by decide⟩

theorem settleDirectory_of_names_nil (closed : disk.Closed) (proper : path.Proper)
    (hnames : path.names = []) : disk.settleDirectory path.toText = .ok disk := by
  have hthere : disk.isDirectory path.toText = true := by
    rw [isDirectory_toText closed proper, hnames]
    exact ⟨nameable_of_names_nil proper hnames, _, .stop _ _, closed.lookup_startOf _⟩
  rw [settleDirectory, makeDirectory_of_names_nil closed proper hnames]
  exact if_pos hthere

theorem joinWith_prefix (separator : Text) (front : List Text) (name : Text) :
    Text.joinWith separator front <+: Text.joinWith separator (front ++ [name]) := by
  induction front with
  | nil => exact List.nil_prefix
  | cons first front ih =>
    cases front with
    | nil => simp [Text.joinWith, List.intercalate]
    | cons second front =>
      change first ++ (separator ++ Text.joinWith separator (second :: front)) <+:
        first ++ (separator ++ Text.joinWith separator (second :: front ++ [name]))
      rwa [List.prefix_append_right_inj, List.prefix_append_right_inj]

theorem Nameable.of_prefix {a b : Text} (h : Nameable b) (hfront : a <+: b) : Nameable a := by
  obtain ⟨rest, rfl⟩ := hfront
  obtain ⟨hsizes, hnull⟩ := obstacle?_eq_none_iff.1 h.usable
  refine ⟨obstacle?_eq_none_iff.2 ⟨?_, fun hmem => hnull (List.mem_append_left _ hmem)⟩, ?_⟩
  · exact fun c hc => hsizes c (List.mem_append_left _ hc)
  · have hlength := h.length
    rw [Text.pathSize_append] at hlength
    exact Nat.le_of_add_right_le hlength

theorem Nameable.parent (h : Nameable path.toText) : Nameable path.parent.toText := by
  have hprefix : path.root ++ Text.joinWith ['/'] path.names.dropLast <+:
      path.root ++ Text.joinWith ['/'] path.names := by
    rw [List.prefix_append_right_inj]
    obtain hnames | ⟨front, name, hnames⟩ := List.eq_nil_or_concat path.names
    · simp [hnames]
    · rw [hnames, List.concat_eq_append, List.dropLast_concat]
      exact joinWith_prefix _ _ _
  unfold Parts.toText Parts.parent at *
  by_cases hempty : path.root ++ Text.joinWith ['/'] path.names.dropLast = []
  · simp only [hempty]
    exact ⟨by decide, by decide⟩
  · have hne : path.root ++ Text.joinWith ['/'] path.names ≠ [] := by
      intro hnil
      rw [hnil, List.prefix_nil] at hprefix
      exact hempty hprefix
    simp only [if_neg hempty, if_neg hne] at h ⊢
    exact h.of_prefix hprefix

/-- What the names of a way come to, one after the other. -/
inductive Makes (disk : Disk) (start : List Text) : List Text → Disk → Prop
  | nil : Makes disk start [] disk
  | snoc {front : List Text} {name : Text} {middle made : Disk}
      (hfront : Makes disk start front middle) (hlast : middle.Settles start front name made) :
      Makes disk start (front ++ [name]) made

theorem makes_concat_iff :
    disk.Makes start (front ++ [name]) made ↔
      ∃ middle, disk.Makes start front middle ∧ middle.Settles start front name made := by
  constructor
  · intro h
    generalize hnames : front ++ [name] = names at h
    cases h with
    | nil => simp at hnames
    | snoc hfront hlast =>
      obtain ⟨rfl, hname⟩ := List.append_inj' hnames rfl
      cases hname
      exact ⟨_, hfront, hlast⟩
  · rintro ⟨middle, hfront, hlast⟩
    exact .snoc hfront hlast

theorem makes_nil_iff : disk.Makes start [] made ↔ made = disk := by
  constructor
  · intro h
    generalize hnames : [] = names at h
    cases h with
    | nil => rfl
    | snoc => simp at hnames
  · rintro rfl
    exact .nil

theorem makes_of_leads (hleads : disk.Leads maxLinks start names place)
    (hplace : disk.lookup place = some .directory) : disk.Makes start names disk := by
  induction names using List.reverseRecOn generalizing place with
  | nil => exact .nil
  | append_singleton front name ih =>
    obtain ⟨parent, hfront, hparent⟩ := hleads.exists_front (by simp [hplace])
    exact .snoc (ih hfront hparent) (.there hleads hplace)

namespace Makes

theorem keeps (h : disk.Makes start names made) : disk.Keeps made := by
  induction h with
  | nil => exact .refl disk
  | snoc _ hlast ih => exact ih.trans hlast.keeps

theorem closed (h : disk.Makes start names made) (closed : disk.Closed) : made.Closed := by
  induction h with
  | nil => exact closed
  | snoc _ hlast ih => exact hlast.closed ih

theorem new (h : disk.Makes start names made) (other : List Text) :
    made.lookup other = disk.lookup other ∨
      disk.lookup other = none ∧ made.lookup other = some .directory := by
  induction h with
  | nil => exact .inl rfl
  | snoc hfront hlast ih =>
    obtain hnew | ⟨hnone, hnew⟩ := hlast.new other
    · rwa [hnew]
    · obtain hsame | ⟨-, hdirectory⟩ := ih
      · exact .inr ⟨hsame ▸ hnone, hnew⟩
      · rw [hnone] at hdirectory
        cases hdirectory

theorem eq_of_leads (h : disk.Makes start names made)
    (hleads : disk.Leads maxLinks start names place)
    (hplace : disk.lookup place = some .directory) : made = disk := by
  induction h generalizing place with
  | nil => rfl
  | snoc hfront hlast ih =>
    obtain ⟨parent, hfront', hparent⟩ := hleads.exists_front (by simp [hplace])
    obtain rfl := ih hfront' hparent
    exact hlast.eq_of_leads hleads hplace

theorem transfer (h : disk.Makes start names made) (hkeeps : disk.Keeps other)
    (hfits : made.Fits other) :
    ∃ made', other.Makes start names made' ∧ made.Keeps made' ∧
      ∀ names, made'.lookup names = (other.lookup names).or (made.lookup names) := by
  induction h with
  | nil =>
    refine ⟨other, .nil, hkeeps, ?_⟩
    intro names
    cases hother : other.lookup names with
    | none => rw [hkeeps.none hother]; rfl
    | some node => rfl
  | @snoc front name middle made hfront hlast ih =>
    obtain ⟨middle', hmakes, hmiddle, hlookup⟩ := ih (hlast.keeps.fits_of_fits hfits)
    cases hlast with
    | there hleads hplace =>
      exact ⟨middle', .snoc hmakes (.there (hleads.keeps hmiddle (by simp [hplace]))
        (hmiddle.directory hplace)), hmiddle, hlookup⟩
    | @fresh place hleads hplace hname hlength hnone =>
      have hleads' := hleads.keeps hmiddle (by simp [hplace])
      have hplace' := hmiddle.directory hplace
      have hne : place ++ [name] ≠ [] := by simp
      have hsame : middle'.lookup (place ++ [name]) = other.lookup (place ++ [name]) := by
        rw [hlookup, hnone, Option.or_none]
      cases hother : other.lookup (place ++ [name]) with
      | none =>
        rw [hother] at hsame
        refine ⟨middle'.put (place ++ [name]) .directory,
          .snoc hmakes (.fresh hleads' hplace' hname hlength hsame), ?_, ?_⟩
        · exact (hmiddle.trans (keeps_put (by simp [hsame]) hne)).put_left hne (lookup_put_self hne)
        · intro names
          by_cases hnames : names = place ++ [name]
          · rw [hnames, lookup_put_self hne, lookup_put_self hne, hother, Option.none_or]
          · rw [lookup_put_of_ne hnames, lookup_put_of_ne hnames, hlookup]
      | some node =>
        have hdirectory : other.lookup (place ++ [name]) = some .directory :=
          hfits.directory (lookup_put_self hne) (by simp [hother])
        rw [hdirectory] at hsame
        refine ⟨middle', .snoc hmakes
          (.there (hleads'.concat hplace' hname hlength (by simp [hsame]))
          hsame), hmiddle.put_left hne hsame, ?_⟩
        intro names
        by_cases hnames : names = place ++ [name]
        · rw [hnames, hsame, hdirectory, Option.some_or]
        · rw [lookup_put_of_ne hnames, hlookup]

end Makes

theorem ensureDirectory_iff (closed : disk.Closed) (proper : path.Proper) :
    disk.ensureDirectory path = .ok made ↔
      Nameable path.toText ∧ disk.Makes (startOf disk.here path.root) path.names made := by
  constructor
  · intro h
    fun_induction Disk.ensureDirectory disk path generalizing made with
    | case1 => cases h
    | case2 path hmissing hnames ih =>
      obtain ⟨middle, hparent, hlast⟩ := bind_eq_ok h
      obtain ⟨-, hmakes⟩ := ih proper.parent hparent
      obtain ⟨front, name, hconcat⟩ := (List.eq_nil_or_concat path.names).resolve_left hnames
      rw [List.concat_eq_append] at hconcat
      have hfront : path.parent.names = front := by rw [Parts.parent, hconcat, List.dropLast_concat]
      obtain ⟨nameable, hsettles⟩ :=
        (settleDirectory_iff (hmakes.closed closed) proper hconcat).1 hlast
      rw [hmakes.keeps.here] at hsettles
      rw [hfront] at hmakes
      exact ⟨nameable, hconcat ▸ .snoc hmakes hsettles⟩
    | case3 path hmake =>
      obtain hnames | ⟨front, name, hconcat⟩ := List.eq_nil_or_concat path.names
      · rw [settleDirectory_of_names_nil closed proper hnames] at h
        cases h
        exact ⟨nameable_of_names_nil proper hnames, hnames ▸ .nil⟩
      · rw [List.concat_eq_append] at hconcat
        obtain ⟨nameable, hsettles⟩ := (settleDirectory_iff closed proper hconcat).1 h
        obtain ⟨place, hfront, hplace⟩ := hsettles.exists_front
        exact ⟨nameable, hconcat ▸ .snoc (makes_of_leads hfront hplace) hsettles⟩
  · rintro ⟨nameable, h⟩
    fun_induction Disk.ensureDirectory disk path generalizing made with
    | case1 path hmissing hnames =>
      rw [makeDirectory_of_names_nil closed proper hnames] at hmissing
      cases hmissing
    | case2 path hmissing hnames ih =>
      obtain ⟨front, name, hconcat⟩ := (List.eq_nil_or_concat path.names).resolve_left hnames
      rw [List.concat_eq_append] at hconcat
      have hfront : path.parent.names = front := by rw [Parts.parent, hconcat, List.dropLast_concat]
      rw [hconcat] at h
      obtain ⟨middle, hmakes, hsettles⟩ := makes_concat_iff.1 h
      have hparent := ih proper.parent nameable.parent (hfront.symm ▸ hmakes)
      rw [hparent]
      refine (settleDirectory_iff (hmakes.closed closed) proper hconcat).2 ⟨nameable, ?_⟩
      rwa [hmakes.keeps.here]
    | case3 path hmake =>
      obtain hnames | ⟨front, name, hconcat⟩ := List.eq_nil_or_concat path.names
      · rw [hnames, makes_nil_iff] at h
        rw [h, settleDirectory_of_names_nil closed proper hnames]
      · rw [List.concat_eq_append] at hconcat
        rw [hconcat] at h
        obtain ⟨middle, hmakes, hsettles⟩ := makes_concat_iff.1 h
        -- What the way passes is kept, so that on the disk itself it can only be missing.
        obtain ⟨place, hfront, hplace⟩ := hsettles.exists_front
        obtain hwalk | hwalk := hfront.fits hplace hmakes.keeps.fits.symm closed
          (by simp [closed.lookup_startOf])
        · obtain ⟨hleads, hdirectory⟩ := walk_eq_ok_iff.1 hwalk
          obtain rfl := hmakes.eq_of_leads hleads hdirectory.symm
          exact (settleDirectory_iff closed proper hconcat).2 ⟨nameable, hsettles⟩
        · exact absurd (makeDirectory_of_missing closed proper hconcat nameable hwalk) hmake

end Relink.Disk
