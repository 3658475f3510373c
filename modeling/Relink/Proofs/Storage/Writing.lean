import Relink.Proofs.Except
import Relink.Proofs.Path.Parts
import Relink.Proofs.Storage.Walking
import Relink.Storage.Directories

namespace Relink.Disk

open Relink.Path (Parts)
open Path.Posix (components)

variable {disk disk' : Disk} {path : Text} {contents : Bytes} {names other place : List Text}
  {node : Node}

theorem lookup_put_self (hnames : names ≠ []) : (disk.put names node).lookup names = some node := by
  have hbefore : (disk.nodes.filter (·.1 ≠ names)).lookup names = none := by
    rw [List.lookup_eq_none_iff]
    intro entry hentry
    obtain ⟨-, hne⟩ := List.mem_filter.1 hentry
    exact bne_iff_ne.2 (Ne.symm (of_decide_eq_true hne))
  rw [lookup, if_neg hnames, put, List.lookup_append, hbefore]
  simp

theorem lookup_put_of_ne (hother : other ≠ names) :
    (disk.put names node).lookup other = disk.lookup other := by
  have hfilter : ∀ nodes : List (List Text × Node),
      (nodes.filter (·.1 ≠ names)).lookup other = nodes.lookup other := by
    intro nodes
    induction nodes with
    | nil => rfl
    | cons entry nodes ih =>
      obtain ⟨key, value⟩ := entry
      by_cases hkey : key = names
      · subst hkey
        rw [List.filter_cons_of_neg (by simp), ih, List.lookup_cons, beq_false_of_ne hother]
      · rw [List.filter_cons_of_pos (by simpa using hkey), List.lookup_cons, List.lookup_cons, ih]
  simp only [lookup, put, List.lookup_append, hfilter]
  simp [List.lookup_cons, beq_false_of_ne hother]

theorem LinkFree.put (h : disk.LinkFree) (hnode : ∀ target, node ≠ .link target) :
    (disk.put names node).LinkFree := by
  intro other target hmem
  obtain hmem | hmem := List.mem_append.1 hmem
  · exact h other target (List.mem_filter.1 hmem).1
  · cases List.mem_singleton.1 hmem
    exact hnode target rfl

theorem IsTree.put (h : disk.IsTree) (hnames : names ≠ []) (hnode : ∀ target, node ≠ .link target)
    (hparent : disk.lookup names.dropLast = some .directory)
    (hold : disk.lookup names = some .directory → node = .directory) :
    (disk.put names node).IsTree where
  linkFree := h.linkFree.put hnode
  closed other node' hother := by
    have hdirectory : disk.lookup other.dropLast = some .directory := by
      by_cases hsame : other = names
      · exact hsame ▸ hparent
      · rw [lookup_put_of_ne hsame] at hother
        exact h.closed other node' hother
    by_cases hsame : other.dropLast = names
    · rw [hsame] at hdirectory ⊢
      rw [lookup_put_self hnames, hold hdirectory]
    · rwa [lookup_put_of_ne hsame]

structure Grows (disk disk' : Disk) : Prop where
  tree : disk'.IsTree
  here : disk'.here = disk.here
  lookup : ∀ names node, disk.lookup names = some node → disk'.lookup names = some node

namespace Grows

theorem refl (h : disk.IsTree) : disk.Grows disk := ⟨h, rfl, fun _ _ h => h⟩

theorem trans {disk'' : Disk} (h : disk.Grows disk') (h' : disk'.Grows disk'') :
    disk.Grows disk'' :=
  ⟨h'.tree, h'.here.trans h.here, fun names node hnode =>
    h'.lookup names node (h.lookup names node hnode)⟩

end Grows

namespace IsTree

theorem lookup_newPlace (h : disk.IsTree) {parent : List Text} {name : Text}
    (hplace : disk.newPlace path = .ok (parent, name)) : disk.lookup parent = some .directory := by
  simp only [newPlace, bind, Except.bind, pure, Except.pure, throw, throwThe, MonadExceptOf.throw]
    at hplace
  split at hplace
  · cases hplace
  split at hplace
  · cases hplace
  split at hplace
  · cases hplace
  split at hplace
  · cases hplace
  next found hwalk =>
  cases h.linkFree.walk_eq hwalk
  split at hplace
  · next hfound =>
    obtain ⟨rfl, hdirectory⟩ := Prod.mk.inj hfound
    split_ifs at hplace
    cases hplace
    exact hdirectory
  · cases hplace
  · cases hplace

theorem grows_makeDirectory (h : disk.IsTree) (hmake : disk.makeDirectory path = .ok disk') :
    disk.Grows disk' := by
  obtain ⟨⟨parent, name⟩, hplace, hmake⟩ := bind_eq_ok hmake
  have hparent := h.lookup_newPlace hplace
  have hne : parent ++ [name] ≠ [] := by simp
  dsimp only at hmake
  split at hmake
  · cases hmake
  next hnone =>
  cases hmake
  refine ⟨h.put hne (by simp) (by rwa [List.dropLast_concat]) fun _ => rfl, rfl, ?_⟩
  intro names node hnode
  have hother : names ≠ parent ++ [name] := by
    rintro rfl
    rw [hnone] at hnode
    cases hnode
  rwa [lookup_put_of_ne hother]

theorem grows_settleDirectory (h : disk.IsTree) (hmake : disk.settleDirectory path = .ok disk') :
    disk.Grows disk' := by
  unfold settleDirectory at hmake
  split at hmake
  · next hok =>
    cases hmake
    exact h.grows_makeDirectory hok
  · cases hmake
  · split at hmake
    · cases hmake
      exact .refl h
    · cases hmake

theorem grows_ensureDirectory (h : disk.IsTree) {path : Parts}
    (hmake : disk.ensureDirectory path = .ok disk') : disk.Grows disk' := by
  fun_induction Disk.ensureDirectory disk path generalizing disk' with
  | case1 => cases hmake
  | case2 path hmissing hnames ih =>
    obtain ⟨middle, hparent, hmake⟩ := bind_eq_ok hmake
    have hgrows := ih hparent
    exact hgrows.trans (hgrows.tree.grows_settleDirectory hmake)
  | case3 path hok => exact h.grows_settleDirectory hmake

end IsTree

structure Written (disk disk' : Disk) (place : List Text) (contents : Bytes) : Prop where
  tree : disk'.IsTree
  here : disk'.here = disk.here
  old : disk.lookup place ≠ some .directory
  new : disk'.lookup place = some (.file contents)
  others : ∀ names, names ≠ place → disk'.lookup names = disk.lookup names

theorem Written.directories (h : disk.Written disk' place contents) (names : List Text)
    (hnames : disk.lookup names = some .directory) : disk'.lookup names = some .directory := by
  rw [h.others names, hnames]
  exact fun hplace => h.old (hplace ▸ hnames)

theorem writeBytes_eq_ok_iff :
    disk.writeBytes path contents = .ok disk' ↔
      ∃ names found, disk.locate path = .ok (names, found) ∧ found ≠ some .directory ∧
        disk' = disk.put names (.file contents) ∧ disk'.stat path = some .file := by
  unfold writeBytes
  split
  · simp_all
  · simp_all
  · next names found hfound hlocate =>
    simp only [hlocate, Except.ok.injEq, Prod.mk.injEq]
    constructor
    · intro h
      split_ifs at h with hstat
      cases h
      exact ⟨names, found, ⟨rfl, rfl⟩, hfound, rfl, hstat⟩
    · rintro ⟨_, _, ⟨rfl, rfl⟩, -, rfl, hstat⟩
      rw [if_pos hstat]

namespace IsTree

theorem lookup_startOf (h : disk.IsTree) {found : Option Node}
    (hlocate : disk.locate path = .ok (place, found)) :
    disk.lookup (startOf disk.here path) = some .directory := by
  obtain ⟨-, -, -, hreaches⟩ := h.linkFree.locate_eq_ok_iff.1 hlocate
  obtain ⟨first, rest, hcomponents⟩ :=
    List.exists_cons_of_ne_nil (List.splitOn_ne_nil (CodePoint.char '/') path)
  rw [components, hcomponents] at hreaches
  exact hreaches.lookup_start

theorem written (h : disk.IsTree) (hwrite : disk.writeBytes path contents = .ok disk') :
    disk.Written disk' (disk.placeOf path) contents := by
  obtain ⟨place, found, hlocate, hfound, rfl, -⟩ := writeBytes_eq_ok_iff.1 hwrite
  obtain ⟨-, -, -, hreaches⟩ := h.linkFree.locate_eq_ok_iff.1 hlocate
  obtain rfl := h.linkFree.eq_placeOf hreaches
  have hold : disk.lookup (disk.placeOf path) ≠ some .directory := hreaches.found_eq ▸ hfound
  have hne : disk.placeOf path ≠ [] := fun hnil => hold (hnil ▸ disk.lookup_nil)
  have hparent := hreaches.lookup_dropLast h (h.lookup_startOf hlocate)
  exact
    { tree := h.put hne (by simp) hparent fun hdirectory => absurd hdirectory hold
      here := rfl
      old := hold
      new := lookup_put_self hne
      others := fun names hother => lookup_put_of_ne hother }

end IsTree

theorem startOf_toText {path : Parts} (h : path.Proper) (here : List Text) :
    startOf here path.toText = startOf here path.root := by
  have hroot := h.isAbsolute_toText
  unfold startOf
  obtain hr | hr | hr := h.root <;> rw [hroot, hr] <;> rfl

theorem placeOf_toText {path : Parts} (h : path.Proper) (disk : Disk) :
    disk.placeOf path.toText = path.names.foldl turn (startOf disk.here path.root) := by
  obtain ⟨front, hfront, hcomponents⟩ := h.components_toText
  rw [placeOf, hcomponents, List.foldl_append, foldl_turn_still hfront, startOf_toText h]

structure Stored (disk disk' : Disk) (path : Text) (contents : Bytes) : Prop where
  tree : disk'.IsTree
  here : disk'.here = disk.here
  read : disk'.readBytes path = .ok contents
  others : ∀ other old, disk.placeOf other ≠ disk.placeOf path →
    disk.readBytes other = .ok old → disk'.readBytes other = .ok old

namespace IsTree

theorem names_ne_nil_of_writeBytes (h : disk.IsTree) {path : Parts} (hpath : path.Proper)
    (hwrite : disk.writeBytes path.toText contents = .ok disk') : path.names ≠ [] := by
  intro hnames
  obtain ⟨place, found, hlocate, -, -⟩ := writeBytes_eq_ok_iff.1 hwrite
  refine (h.written hwrite).old ?_
  rw [placeOf_toText hpath, hnames, List.foldl_nil, ← startOf_toText hpath]
  exact h.lookup_startOf hlocate

theorem readBytes_of_writeBytes (h : disk.IsTree) {path : Parts} (hpath : path.Proper)
    (hwrite : disk.writeBytes path.toText contents = .ok disk') :
    disk'.readBytes path.toText = .ok contents := by
  have hwritten := h.written hwrite
  obtain ⟨place, found, hlocate, hfound, -⟩ := writeBytes_eq_ok_iff.1 hwrite
  refine h.readBytes_of_update hwritten.here hwritten.directories hlocate hfound hwritten.new ?_
  intro _ hlast
  have hnames := h.names_ne_nil_of_writeBytes hpath hwrite
  obtain ⟨front, -, hcomponents⟩ := hpath.components_toText
  rw [hcomponents, List.getLast?_append, List.getLast?_eq_some_getLast hnames, Option.some_or,
    Option.some_inj] at hlast
  exact (hpath.names _ (List.getLast_mem hnames)).1 hlast

theorem readBytes_of_grows (h : disk.IsTree) (hgrows : disk.Grows disk')
    (hread : disk.readBytes path = .ok contents) : disk'.readBytes path = .ok contents :=
  h.readBytes_of_kept hgrows.here (fun names => hgrows.lookup names .directory) (hgrows.lookup _)
    hread

theorem readBytes_of_written (h : disk.IsTree) (hwritten : disk.Written disk' place contents)
    {old : Bytes} (hother : disk.placeOf path ≠ place) (hread : disk.readBytes path = .ok old) :
    disk'.readBytes path = .ok old := by
  refine h.readBytes_of_kept hwritten.here hwritten.directories ?_ hread
  intro node hnode
  rwa [hwritten.others _ hother]

theorem stored (h : disk.IsTree) {middle : Disk} {path : Parts} (hpath : path.Proper)
    (hensure : disk.ensureDirectory path.parent = .ok middle)
    (hwrite : middle.writeBytes path.toText contents = .ok disk') :
    disk.Stored disk' path.toText contents := by
  have hgrows := h.grows_ensureDirectory hensure
  have hwritten := hgrows.tree.written hwrite
  have hplaceOf : middle.placeOf = disk.placeOf := by
    funext other
    rw [placeOf, placeOf, hgrows.here]
  refine ⟨hwritten.tree, hwritten.here.trans hgrows.here, ?_, ?_⟩
  · exact hgrows.tree.readBytes_of_writeBytes hpath hwrite
  · intro other old hother hread
    rw [← hplaceOf] at hother
    exact hgrows.tree.readBytes_of_written hwritten hother (h.readBytes_of_grows hgrows hread)

end IsTree

end Relink.Disk
