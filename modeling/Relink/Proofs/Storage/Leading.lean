import Relink.Proofs.Except
import Relink.Proofs.Storage.Usable
import Relink.Proofs.Storage.Walking

/-!
Walks with links. Where a path leads on a disk, it leads on every disk that keeps what is there; and
what two disks both have lies on one way when it is of one kind.
-/

namespace Relink.Disk

open Relink.Path (IsName)
open Path.Posix (components)

variable {disk disk' other : Disk} {path : Text} {contents : Bytes} {links : Nat}
  {start names front place : List Text} {name : Text} {node : Node}

def Node.seen : Node → Node
  | .file _ => .file []
  | node => node

@[simp] theorem Node.seen_eq_directory : node.seen = .directory ↔ node = .directory := by
  cases node <;> simp [seen]

@[simp] theorem Node.seen_eq_link {target : Text} :
    node.seen = .link target ↔ node = .link target := by
  cases node <;> simp [seen]

@[simp] theorem Node.seen_eq_file : node.seen = .file [] ↔ ∃ contents, node = .file contents := by
  cases node <;> simp [seen]

structure Closed (disk : Disk) : Prop where
  here : disk.lookup disk.here = some .directory
  parent : ∀ names node, disk.lookup names = some node →
    disk.lookup names.dropLast = some .directory

structure Keeps (disk disk' : Disk) : Prop where
  here : disk'.here = disk.here
  lookup : ∀ names node, disk.lookup names = some node →
    ∃ node', disk'.lookup names = some node' ∧ node'.seen = node.seen

def Fits (disk disk' : Disk) : Prop :=
  ∀ names node node', disk.lookup names = some node → disk'.lookup names = some node' →
    node'.seen = node.seen

namespace Keeps

theorem refl (disk : Disk) : disk.Keeps disk := ⟨rfl, fun _ node h => ⟨node, h, rfl⟩⟩

theorem trans (h : disk.Keeps disk') (h' : disk'.Keeps other) : disk.Keeps other where
  here := h'.here.trans h.here
  lookup names node hnode := by
    obtain ⟨node', hnode', hseen⟩ := h.lookup names node hnode
    obtain ⟨node'', hnode'', hseen'⟩ := h'.lookup names node' hnode'
    exact ⟨node'', hnode'', hseen'.trans hseen⟩

theorem directory (h : disk.Keeps disk') (hnode : disk.lookup names = some .directory) :
    disk'.lookup names = some .directory := by
  obtain ⟨node', hnode', hseen⟩ := h.lookup names _ hnode
  rw [hnode', Node.seen_eq_directory.1 hseen]

theorem link (h : disk.Keeps disk') {target : Text}
    (hnode : disk.lookup names = some (.link target)) :
    disk'.lookup names = some (.link target) := by
  obtain ⟨node', hnode', hseen⟩ := h.lookup names _ hnode
  rw [hnode', Node.seen_eq_link.1 hseen]

theorem file (h : disk.Keeps disk') (hnode : disk.lookup names = some (.file contents)) :
    ∃ contents', disk'.lookup names = some (.file contents') := by
  obtain ⟨node', hnode', hseen⟩ := h.lookup names _ hnode
  obtain ⟨contents', rfl⟩ := Node.seen_eq_file.1 hseen
  exact ⟨contents', hnode'⟩

theorem none (h : disk.Keeps disk') (hnone : disk'.lookup names = none) :
    disk.lookup names = none := by
  rw [Option.eq_none_iff_forall_ne_some]
  intro node hnode
  obtain ⟨node', hnode', -⟩ := h.lookup names node hnode
  rw [hnone] at hnode'
  cases hnode'

theorem fits (h : disk.Keeps disk') : disk.Fits disk' := by
  intro names node node' hnode hnode'
  obtain ⟨_, hsame, hseen⟩ := h.lookup names node hnode
  cases hnode'.symm.trans hsame
  exact hseen

theorem fits_of_fits (h : disk.Keeps disk') (fits : disk'.Fits other) : disk.Fits other := by
  intro names node node' hnode hnode'
  obtain ⟨middle, hmiddle, hseen⟩ := h.lookup names node hnode
  exact (fits names middle node' hmiddle hnode').trans hseen

end Keeps

theorem Fits.symm (h : disk.Fits disk') : disk'.Fits disk :=
  fun names node node' hnode hnode' => (h names node' node hnode' hnode).symm

theorem Fits.directory (h : disk.Fits disk') (hnode : disk.lookup names = some .directory)
    (hne : disk'.lookup names ≠ none) : disk'.lookup names = some .directory := by
  obtain ⟨node', hnode'⟩ := Option.ne_none_iff_exists'.1 hne
  rw [hnode', Node.seen_eq_directory.1 (h _ _ _ hnode hnode')]

theorem walk_congr {start' names' : List Text}
    (h : disk.advance start names = disk.advance start' names') (links : Nat) :
    disk.walk links start names = disk.walk links start' names' := by
  unfold walk
  rw [h]

theorem advance_stay (hstart : disk.lookup start = some .directory)
    (hname : name = [] ∨ name = [.char '.']) :
    disk.advance start (name :: names) = disk.advance start names := by
  rw [advance, if_neg (by simp [hstart]), if_pos hname]

theorem advance_up (hstart : disk.lookup start = some .directory) :
    disk.advance start (['.', '.'] :: names) = disk.advance start.dropLast names := by
  rw [advance, if_neg (by simp [hstart]), if_neg (by simp), if_pos rfl]

theorem advance_missing (hstart : disk.lookup start = some .directory) (hname : IsName name)
    (hlength : Text.pathSize name ≤ maxNameBytes)
    (hnone : disk.lookup (start ++ [name]) = none) :
    disk.advance start (name :: names) =
      if names.all (· = []) then .ok (.done (start ++ [name]) none) else .error .notFound := by
  obtain ⟨hne, hdot, hup⟩ := hname
  simp only [advance, hstart, hne, hdot, hup, Nat.not_lt.2 hlength, hnone, ne_eq, not_true_eq_false,
    or_self, if_false]

theorem advance_link (hstart : disk.lookup start = some .directory) (hname : IsName name)
    (hlength : Text.pathSize name ≤ maxNameBytes) {target : Text}
    (hnode : disk.lookup (start ++ [name]) = some (.link target)) :
    disk.advance start (name :: names) =
      .ok (.link (startOf start target) (components target ++ names)) := by
  obtain ⟨hne, hdot, hup⟩ := hname
  simp only [advance, hstart, hne, hdot, hup, Nat.not_lt.2 hlength, hnode, ne_eq, not_true_eq_false,
    or_self, if_false]

theorem advance_down (hstart : disk.lookup start = some .directory) (hname : IsName name)
    (hlength : Text.pathSize name ≤ maxNameBytes)
    (hnode : disk.lookup (start ++ [name]) = some node) (hlink : ∀ target, node ≠ .link target) :
    disk.advance start (name :: names) = disk.advance (start ++ [name]) names := by
  obtain ⟨hne, hdot, hup⟩ := hname
  cases node with
  | link target => exact absurd rfl (hlink target)
  | directory | file =>
    rw [advance]
    simp only [hstart, hne, hdot, hup, Nat.not_lt.2 hlength, hnode, ne_eq, not_true_eq_false,
      or_self, if_false]

theorem walk_missing (hstart : disk.lookup start = some .directory) (hname : IsName name)
    (hlength : Text.pathSize name ≤ maxNameBytes)
    (hnone : disk.lookup (start ++ [name]) = none) :
    disk.walk links start (name :: names) = .error .notFound ∨
      ∃ place, disk.walk links start (name :: names) = .ok (place, none) := by
  rw [walk, advance_missing hstart hname hlength hnone]
  by_cases hblank : names.all (· = []) = true
  · simp only [hblank, if_true]
    exact .inr ⟨_, rfl⟩
  · simp only [hblank]
    exact .inl rfl

theorem walk_link (hstart : disk.lookup start = some .directory) (hname : IsName name)
    (hlength : Text.pathSize name ≤ maxNameBytes) {target : Text}
    (hnode : disk.lookup (start ++ [name]) = some (.link target)) (links : Nat) :
    disk.walk (links + 1) start (name :: names) =
      disk.walk links (startOf start target) (components target ++ names) := by
  rw [walk, advance_link hstart hname hlength hnode]

theorem walk_still (hfront : ∀ name ∈ front, name = [] ∨ name = [.char '.'])
    (hstart : disk.lookup start = some .directory) :
    disk.walk links start (front ++ names) = disk.walk links start names := by
  induction front with
  | nil => rfl
  | cons name front ih =>
    obtain ⟨hname, hfront⟩ := List.forall_mem_cons.1 hfront
    rw [List.cons_append, walk_congr (advance_stay hstart hname), ih hfront]

/-- The ways of a walk that comes to its end, with at most so many links to follow. -/
inductive Leads (disk : Disk) : Nat → List Text → List Text → List Text → Prop
  | stop (links : Nat) (start : List Text) : Leads disk links start [] start
  | stay {links : Nat} {start names place : List Text} {name : Text}
      (hstart : disk.lookup start = some .directory) (hname : name = [] ∨ name = [.char '.'])
      (hrest : Leads disk links start names place) : Leads disk links start (name :: names) place
  | up {links : Nat} {start names place : List Text}
      (hstart : disk.lookup start = some .directory)
      (hrest : Leads disk links start.dropLast names place) :
      Leads disk links start (['.', '.'] :: names) place
  | down {links : Nat} {start names place : List Text} {name : Text} {node : Node}
      (hstart : disk.lookup start = some .directory) (hname : IsName name)
      (hlength : Text.pathSize name ≤ maxNameBytes)
      (hnode : disk.lookup (start ++ [name]) = some node) (hlink : ∀ target, node ≠ .link target)
      (hrest : Leads disk links (start ++ [name]) names place) :
      Leads disk links start (name :: names) place
  | link {links : Nat} {start names place : List Text} {name target : Text}
      (hstart : disk.lookup start = some .directory) (hname : IsName name)
      (hlength : Text.pathSize name ≤ maxNameBytes)
      (hnode : disk.lookup (start ++ [name]) = some (.link target))
      (hrest : Leads disk links (startOf start target) (components target ++ names) place) :
      Leads disk (links + 1) start (name :: names) place
  | missing {links : Nat} {start names : List Text} {name : Text}
      (hstart : disk.lookup start = some .directory) (hname : IsName name)
      (hlength : Text.pathSize name ≤ maxNameBytes)
      (hnone : disk.lookup (start ++ [name]) = none) (hrest : names.all (· = []) = true) :
      Leads disk links start (name :: names) (start ++ [name])

theorem Reaches.leads {found : Option Node} (h : disk.Reaches start names place found)
    (links : Nat) : disk.Leads links start names place := by
  induction h with
  | stop start => exact .stop links start
  | stay hstart hname _ ih => exact .stay hstart hname ih
  | up hstart _ ih => exact .up hstart ih
  | down hstart hname hlength hnode hlink _ ih => exact .down hstart hname hlength hnode hlink ih
  | missing hstart hname hlength hnone hrest => exact .missing hstart hname hlength hnone hrest

theorem leads_of_link {start' names' : List Text}
    (h : disk.advance start names = .ok (.link start' names'))
    (hrest : disk.Leads links start' names' place) : disk.Leads (links + 1) start names place := by
  induction names generalizing start with
  | nil => cases h
  | cons name names ih =>
    unfold advance at h
    split at h
    · cases h
    next hstart =>
    rw [Decidable.not_not] at hstart
    split at h
    · next hblank => exact .stay hstart hblank (ih h)
    next hblank =>
    split at h
    · next hup =>
      subst hup
      exact .up hstart (ih h)
    next hup =>
    have hname : IsName name := ⟨fun h => hblank (.inl h), fun h => hblank (.inr h), hup⟩
    split at h
    · cases h
    next hlength =>
    split at h
    · next target hnode =>
      cases h
      exact .link hstart hname (Nat.not_lt.1 hlength) hnode hrest
    · next node hlink hnode => exact .down hstart hname (Nat.not_lt.1 hlength) hnode hlink (ih h)
    · split at h <;> cases h

theorem Leads.walk_eq (h : disk.Leads links start names place) :
    disk.walk links start names = .ok (place, disk.lookup place) := by
  induction h with
  | stop links start => rw [walk, advance]
  | stay hstart hname _ ih => rw [walk_congr (advance_stay hstart hname), ih]
  | up hstart _ ih => rw [walk_congr (advance_up hstart), ih]
  | down hstart hname hlength hnode hlink _ ih =>
    rw [walk_congr (advance_down hstart hname hlength hnode hlink), ih]
  | link hstart hname hlength hnode _ ih => rw [walk_link hstart hname hlength hnode, ih]
  | missing hstart hname hlength hnone hrest =>
    rw [walk, advance_missing hstart hname hlength hnone, if_pos hrest]
    simp only [hnone]

theorem walk_eq_ok_iff {found : Option Node} :
    disk.walk links start names = .ok (place, found) ↔
      disk.Leads links start names place ∧ found = disk.lookup place := by
  constructor
  · intro h
    induction links generalizing start names with
    | zero =>
      unfold walk at h
      split at h
      · cases h
      · next hdone =>
        cases h
        have hreaches := advance_eq_done_iff.1 hdone
        exact ⟨hreaches.leads 0, hreaches.found_eq⟩
      · cases h
    | succ links ih =>
      unfold walk at h
      split at h
      · cases h
      · next hdone =>
        cases h
        have hreaches := advance_eq_done_iff.1 hdone
        exact ⟨hreaches.leads _, hreaches.found_eq⟩
      · next hlink =>
        obtain ⟨hrest, hfound⟩ := ih h
        exact ⟨leads_of_link hlink hrest, hfound⟩
  · rintro ⟨h, rfl⟩
    exact h.walk_eq

namespace Leads

theorem lookup_start (h : disk.Leads links start (name :: names) place) :
    disk.lookup start = some .directory := by
  cases h <;> assumption

theorem unique {place' : List Text} (h : disk.Leads links start names place)
    (h' : disk.Leads links start names place') : place = place' := by
  have heq := h.walk_eq.symm.trans h'.walk_eq
  cases heq
  rfl

theorem keeps (h : disk.Leads links start names place) (hkeeps : disk.Keeps disk')
    (hplace : disk.lookup place = none → disk'.lookup place = none) :
    disk'.Leads links start names place := by
  induction h with
  | stop links start => exact .stop links start
  | stay hstart hname _ ih => exact .stay (hkeeps.directory hstart) hname (ih hplace)
  | up hstart _ ih => exact .up (hkeeps.directory hstart) (ih hplace)
  | @down links start names place name node hstart hname hlength hnode hlink _ ih =>
    obtain ⟨node', hnode', hseen⟩ := hkeeps.lookup _ node hnode
    refine .down (hkeeps.directory hstart) hname hlength hnode' ?_ (ih hplace)
    rintro target rfl
    exact hlink target (Node.seen_eq_link.1 hseen.symm)
  | link hstart hname hlength hnode _ ih =>
    exact .link (hkeeps.directory hstart) hname hlength (hkeeps.link hnode) (ih hplace)
  | missing hstart hname hlength hnone hrest =>
    exact .missing (hkeeps.directory hstart) hname hlength (hplace hnone) hrest

theorem concat (h : disk.Leads links start front place)
    (hplace : disk.lookup place = some .directory) (hname : IsName name)
    (hlength : Text.pathSize name ≤ maxNameBytes)
    (hlink : ∀ target, disk.lookup (place ++ [name]) ≠ some (.link target)) :
    disk.Leads links start (front ++ [name]) (place ++ [name]) := by
  induction h with
  | stop links start =>
    cases hnode : disk.lookup (start ++ [name]) with
    | none => exact .missing hplace hname hlength hnode rfl
    | some node =>
      refine .down hplace hname hlength hnode ?_ (.stop links _)
      rintro target rfl
      exact hlink target hnode
  | stay hstart hfirst _ ih => exact .stay hstart hfirst (ih hplace hlink)
  | up hstart _ ih => exact .up hstart (ih hplace hlink)
  | down hstart hfirst hfit hfound hfoundLink _ ih =>
    exact .down hstart hfirst hfit hfound hfoundLink (ih hplace hlink)
  | link hstart hfirst hfit hfound _ ih =>
    have hrest := ih hplace hlink
    rw [List.append_assoc] at hrest
    exact .link hstart hfirst hfit hfound hrest
  | missing _ _ _ hnone _ =>
    rw [hnone] at hplace
    cases hplace

theorem exists_front (h : disk.Leads links start (front ++ [name]) place)
    (hplace : disk.lookup place ≠ none) :
    ∃ parent, disk.Leads links start front parent ∧ disk.lookup parent = some .directory := by
  generalize hnames : front ++ [name] = names at h
  induction h generalizing front with
  | stop => simp at hnames
  | stay hstart hfirst hrest ih =>
    cases front with
    | nil => exact ⟨_, .stop _ _, hstart⟩
    | cons first front =>
      obtain ⟨rfl, hbehind⟩ := List.cons.inj hnames
      obtain ⟨parent, hlead, hparent⟩ := ih hplace hbehind
      exact ⟨parent, .stay hstart hfirst hlead, hparent⟩
  | up hstart hrest ih =>
    cases front with
    | nil => exact ⟨_, .stop _ _, hstart⟩
    | cons first front =>
      obtain ⟨rfl, hbehind⟩ := List.cons.inj hnames
      obtain ⟨parent, hlead, hparent⟩ := ih hplace hbehind
      exact ⟨parent, .up hstart hlead, hparent⟩
  | down hstart hfirst hfit hfound hfoundLink hrest ih =>
    cases front with
    | nil => exact ⟨_, .stop _ _, hstart⟩
    | cons first front =>
      obtain ⟨rfl, hbehind⟩ := List.cons.inj hnames
      obtain ⟨parent, hlead, hparent⟩ := ih hplace hbehind
      exact ⟨parent, .down hstart hfirst hfit hfound hfoundLink hlead, hparent⟩
  | @link links start names place first target hstart hfirst hfit hfound hrest ih =>
    cases front with
    | nil => exact ⟨_, .stop _ _, hstart⟩
    | cons first' front =>
      obtain ⟨rfl, rfl⟩ := List.cons.inj hnames
      obtain ⟨parent, hlead, hparent⟩ := @ih (components target ++ front) hplace (by simp)
      exact ⟨parent, .link hstart hfirst hfit hfound hlead, hparent⟩
  | missing _ _ _ hnone _ => exact absurd hnone hplace

theorem fits (h : disk.Leads links start names place)
    (hplace : disk.lookup place = some .directory) (hfits : disk.Fits disk')
    (closed : disk'.Closed) (hstart : disk'.lookup start ≠ none) :
    disk'.walk links start names = .ok (place, some .directory) ∨
      disk'.walk links start names = .error .notFound ∨
      ∃ place', disk'.walk links start names = .ok (place', none) := by
  induction h with
  | stop links start =>
    have hdirectory := hfits.directory hplace hstart
    rw [(Leads.stop links start).walk_eq, hdirectory]
    exact .inl rfl
  | stay hdirectory hname _ ih =>
    rw [walk_congr (advance_stay (hfits.directory hdirectory hstart) hname)]
    exact ih hplace hstart
  | up hdirectory _ ih =>
    have hdirectory' := hfits.directory hdirectory hstart
    rw [walk_congr (advance_up hdirectory')]
    exact ih hplace (by simp [closed.parent _ _ hdirectory'])
  | @down links start names place name node hdirectory hname hlength hnode hlink _ ih =>
    have hdirectory' := hfits.directory hdirectory hstart
    cases hnode' : disk'.lookup (start ++ [name]) with
    | none => exact .inr (walk_missing hdirectory' hname hlength hnode')
    | some node' =>
      have hlink' : ∀ target, node' ≠ .link target := by
        rintro target rfl
        exact hlink target (Node.seen_eq_link.1 (hfits _ _ _ hnode hnode').symm)
      rw [walk_congr (advance_down hdirectory' hname hlength hnode' hlink')]
      exact ih hplace (by simp [hnode'])
  | @link links start names place name target hdirectory hname hlength hnode _ ih =>
    have hdirectory' := hfits.directory hdirectory hstart
    cases hnode' : disk'.lookup (start ++ [name]) with
    | none => exact .inr (walk_missing hdirectory' hname hlength hnode')
    | some node' =>
      obtain rfl := Node.seen_eq_link.1 (hfits _ _ _ hnode hnode')
      rw [walk_link hdirectory' hname hlength hnode']
      refine ih hplace ?_
      unfold startOf
      split
      · simp
      · exact hstart
  | missing _ _ _ hnone _ =>
    rw [hnone] at hplace
    cases hplace

theorem lookup_ne_link (h : disk.Leads links start names place)
    (hstart : disk.lookup start = some .directory) (closed : disk.Closed) (target : Text) :
    disk.lookup place ≠ some (.link target) := by
  induction h with
  | stop => simp [hstart]
  | stay _ _ _ ih => exact ih hstart
  | up _ _ ih => exact ih (closed.parent _ _ hstart)
  | @down links start names place name node _ _ _ hnode hlink hrest ih =>
    cases names with
    | nil =>
      cases hrest
      rw [hnode]
      exact fun h => hlink target (Option.some.inj h)
    | cons => exact ih hrest.lookup_start
  | link _ _ _ _ _ ih =>
    refine ih ?_
    unfold startOf
    split
    · rfl
    · exact hstart
  | missing _ _ _ hnone _ => simp [hnone]

theorem lookup_dropLast (h : disk.Leads links start names place)
    (hstart : disk.lookup start = some .directory) (closed : disk.Closed) :
    disk.lookup place.dropLast = some .directory := by
  induction h with
  | stop => exact closed.parent _ _ hstart
  | stay _ _ _ ih => exact ih hstart
  | up _ _ ih => exact ih (closed.parent _ _ hstart)
  | @down links start names place name node _ _ _ hnode _ hrest ih =>
    cases names with
    | nil =>
      cases hrest
      exact closed.parent _ _ hnode
    | cons => exact ih hrest.lookup_start
  | link _ _ _ _ _ ih =>
    refine ih ?_
    unfold startOf
    split
    · rfl
    · exact hstart
  | missing hdirectory => rwa [List.dropLast_concat]

end Leads

/-- What any disk asks of a path: an encoding, no null character, and not too many octets. -/
structure Nameable (path : Text) : Prop where
  usable : obstacle? path = none
  length : path.pathSize ≤ maxPathBytes

structure Finds (disk : Disk) (path : Text) (place : List Text) : Prop where
  nameable : Nameable path
  nonempty : path ≠ []
  leads : disk.Leads maxLinks (startOf disk.here path) (components path) place

theorem locate_eq_ok_iff {found : Option Node} :
    disk.locate path = .ok (place, found) ↔ disk.Finds path place ∧ found = disk.lookup place := by
  unfold locate
  split
  · next kind hkind => exact ⟨nofun, fun h => absurd (hkind.symm.trans h.1.nameable.usable) nofun⟩
  next hobstacle =>
  split_ifs with hempty hlength
  · exact ⟨nofun, fun h => absurd hempty h.1.nonempty⟩
  · exact ⟨nofun, fun h => absurd h.1.nameable.length (Nat.not_le.2 hlength)⟩
  · rw [walk_eq_ok_iff]
    constructor
    · exact fun ⟨hleads, hfound⟩ => ⟨⟨⟨hobstacle, Nat.not_lt.1 hlength⟩, hempty, hleads⟩, hfound⟩
    · exact fun ⟨hfinds, hfound⟩ => ⟨hfinds.leads, hfound⟩

theorem Finds.keeps (h : disk.Finds path place) (hkeeps : disk.Keeps disk')
    (hplace : disk.lookup place = none → disk'.lookup place = none) : disk'.Finds path place where
  nameable := h.nameable
  nonempty := h.nonempty
  leads := hkeeps.here ▸ h.leads.keeps hkeeps hplace

theorem stat_eq_some_iff {entry : Entry} :
    disk.stat path = some entry ↔
      ∃ place node, disk.Finds path place ∧ disk.lookup place = some node ∧
        entryOf node = entry := by
  unfold stat
  cases hlocate : disk.locate path with
  | error kind =>
    refine ⟨nofun, ?_⟩
    rintro ⟨place, node, hfinds, -, -⟩
    have := locate_eq_ok_iff.2 ⟨hfinds, rfl⟩
    rw [hlocate] at this
    cases this
  | ok found =>
    obtain ⟨place, found⟩ := found
    obtain ⟨hfinds, rfl⟩ := locate_eq_ok_iff.1 hlocate
    constructor
    · intro hentry
      obtain ⟨node, hnode, hentry⟩ := Option.map_eq_some_iff.1 hentry
      exact ⟨place, node, hfinds, hnode, hentry⟩
    · rintro ⟨place', node, hfinds', hnode, rfl⟩
      obtain rfl := hfinds.leads.unique hfinds'.leads
      rw [hnode]
      rfl

theorem isDirectory_iff :
    disk.isDirectory path = true ↔
      ∃ place, disk.Finds path place ∧ disk.lookup place = some .directory := by
  simp only [isDirectory, Option.any_eq_true, stat_eq_some_iff]
  constructor
  · rintro ⟨entry, ⟨place, node, hfinds, hnode, rfl⟩, hdirectory⟩
    cases node <;> cases hdirectory
    exact ⟨place, hfinds, hnode⟩
  · rintro ⟨place, hfinds, hnode⟩
    exact ⟨_, ⟨place, _, hfinds, hnode, rfl⟩, rfl⟩

theorem readBytes_eq_ok_iff_finds :
    disk.readBytes path = .ok contents ↔
      ∃ place, disk.Finds path place ∧ disk.lookup place = some (.file contents) := by
  simp only [readBytes_eq_ok_iff, locate_eq_ok_iff, eq_comm (a := some (Node.file contents))]

theorem entryOf_seen (node : Node) : entryOf node.seen = entryOf node := by
  cases node <;> rfl

theorem Keeps.stat (h : disk.Keeps disk') {entry : Entry} (hstat : disk.stat path = some entry) :
    disk'.stat path = some entry := by
  obtain ⟨place, node, hfinds, hnode, rfl⟩ := stat_eq_some_iff.1 hstat
  obtain ⟨node', hnode', hseen⟩ := h.lookup place node hnode
  refine stat_eq_some_iff.2 ⟨place, node', hfinds.keeps h (by simp [hnode]), hnode', ?_⟩
  rw [← entryOf_seen, hseen, entryOf_seen]

structure Between (first last disk : Disk) : Prop where
  before : first.Keeps disk
  after : disk.Keeps last
  either : ∀ names, disk.lookup names = first.lookup names ∨ disk.lookup names = last.lookup names

namespace Between

variable {first last : Disk}

theorem extend (h : Between first last disk) (hkeeps : last.Keeps other)
    (heither : ∀ names, last.lookup names = first.lookup names ∨
      last.lookup names = other.lookup names) : Between first other disk where
  before := h.before
  after := h.after.trans hkeeps
  either names := by
    obtain hfirst | hlast := h.either names
    · exact .inl hfirst
    · exact (heither names).imp hlast.trans hlast.trans

theorem stat (h : Between first last disk) (hstat : last.stat path = first.stat path) :
    disk.stat path = first.stat path := by
  cases hfirst : first.stat path with
  | some entry => exact h.before.stat hfirst
  | none =>
    rw [Option.eq_none_iff_forall_ne_some]
    intro entry hentry
    rw [hfirst, h.after.stat hentry] at hstat
    cases hstat

theorem readBytes (h : Between first last disk)
    (hread : (last.readBytes path).toOption = (first.readBytes path).toOption) :
    (disk.readBytes path).toOption = (first.readBytes path).toOption := by
  have hok : ∀ {disk : Disk} {contents : Bytes},
      (disk.readBytes path).toOption = some contents ↔
        ∃ place, disk.Finds path place ∧ disk.lookup place = some (.file contents) :=
    toOption_eq_some_iff.trans readBytes_eq_ok_iff_finds
  cases hfirst : (first.readBytes path).toOption with
  | some contents =>
    rw [hfirst] at hread
    obtain ⟨place, hfinds, hnode⟩ := hok.1 hfirst
    obtain ⟨place', hfinds', hnode'⟩ := hok.1 hread
    obtain rfl := (hfinds.keeps (h.before.trans h.after) (by simp [hnode])).leads.unique
      hfinds'.leads
    refine hok.2 ⟨place, hfinds.keeps h.before (by simp [hnode]), ?_⟩
    obtain heither | heither := h.either place
    · rw [heither, hnode]
    · rw [heither, hnode']
  | none =>
    rw [Option.eq_none_iff_forall_ne_some]
    intro contents hcontents
    obtain ⟨place, hfinds, hnode⟩ := hok.1 hcontents
    obtain ⟨contents', hnode'⟩ := h.after.file hnode
    have hlast := hok.2 ⟨place, hfinds.keeps h.after (by simp [hnode]), hnode'⟩
    rw [hread, hfirst] at hlast
    cases hlast

end Between

end Relink.Disk
