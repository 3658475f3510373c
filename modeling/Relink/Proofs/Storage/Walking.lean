import Mathlib.Tactic.ByContra
import Relink.Proofs.Path.Component
import Relink.Proofs.Storage.Disk

namespace Relink.Disk

open Relink.Path (IsName)
open Path.Posix (components)

variable {disk disk' : Disk} {path : Text} {contents : Bytes} {start names place : List Text}

def placeOf (disk : Disk) (path : Text) : List Text :=
  (components path).foldl turn (startOf disk.here path)

/-- What exists stands in a directory, and nothing is a link. -/
structure IsTree (disk : Disk) : Prop where
  linkFree : disk.LinkFree
  closed : ∀ names node, disk.lookup names = some node →
    disk.lookup names.dropLast = some .directory

@[simp] theorem lookup_nil (disk : Disk) : disk.lookup [] = some .directory := rfl

theorem lookup_dropLast_of_nodes
    (closed : ∀ entry ∈ disk.nodes, disk.lookup entry.1.dropLast = some .directory) {node : Node}
    (hnode : disk.lookup names = some node) : disk.lookup names.dropLast = some .directory := by
  by_cases hnames : names = []
  · subst hnames
    rfl
  · rw [lookup, if_neg hnames] at hnode
    obtain ⟨before, after, hnodes, -⟩ := List.lookup_eq_some_iff.1 hnode
    exact closed (names, node) (by simp [hnodes])

theorem isTree_of_nodes (linkFree : disk.LinkFree)
    (closed : ∀ entry ∈ disk.nodes, disk.lookup entry.1.dropLast = some .directory) :
    disk.IsTree where
  linkFree := linkFree
  closed _ _ := lookup_dropLast_of_nodes closed

theorem foldl_turn_still {front : List Text} (h : ∀ name ∈ front, name = [] ∨ name = [.char '.']) :
    front.foldl turn start = start := by
  induction front with
  | nil => rfl
  | cons name front ih =>
    obtain ⟨hname, hfront⟩ := List.forall_mem_cons.1 h
    rw [List.foldl_cons, turn, if_pos hname, ih hfront]

theorem turn_name {name : Text} (h : IsName name) : turn start name = start ++ [name] := by
  unfold turn
  rw [if_neg (by simp [h.1, h.2.1]), if_neg h.2.2]

theorem foldl_turn_names (h : ∀ name ∈ names, IsName name) :
    names.foldl turn start = start ++ names := by
  induction names generalizing start with
  | nil => simp
  | cons name names ih =>
    obtain ⟨hname, hnames⟩ := List.forall_mem_cons.1 h
    rw [List.foldl_cons, turn_name hname, ih hnames, List.append_assoc]
    rfl

inductive Reaches (disk : Disk) : List Text → List Text → List Text → Option Node → Prop
  | stop (start : List Text) : Reaches disk start [] start (disk.lookup start)
  | stay {start names place : List Text} {name : Text} {found : Option Node}
      (hstart : disk.lookup start = some .directory) (hname : name = [] ∨ name = [.char '.'])
      (hrest : Reaches disk start names place found) :
      Reaches disk start (name :: names) place found
  | up {start names place : List Text} {found : Option Node}
      (hstart : disk.lookup start = some .directory)
      (hrest : Reaches disk start.dropLast names place found) :
      Reaches disk start (['.', '.'] :: names) place found
  | down {start names place : List Text} {name : Text} {found : Option Node} {node : Node}
      (hstart : disk.lookup start = some .directory) (hname : IsName name)
      (hlength : Text.pathSize name ≤ maxNameBytes)
      (hnode : disk.lookup (start ++ [name]) = some node) (hlink : ∀ target, node ≠ .link target)
      (hrest : Reaches disk (start ++ [name]) names place found) :
      Reaches disk start (name :: names) place found
  | missing {start names : List Text} {name : Text}
      (hstart : disk.lookup start = some .directory) (hname : IsName name)
      (hlength : Text.pathSize name ≤ maxNameBytes)
      (hnone : disk.lookup (start ++ [name]) = none) (hrest : names.all (· = []) = true) :
      Reaches disk start (name :: names) (start ++ [name]) none

theorem advance_eq_done_iff {found : Option Node} :
    disk.advance start names = .ok (.done place found) ↔ disk.Reaches start names place found := by
  constructor
  · intro h
    induction names generalizing start with
    | nil =>
      cases h
      exact .stop _
    | cons name rest ih =>
      unfold advance at h
      split at h
      · cases h
      next hstart =>
      rw [Decidable.not_not] at hstart
      split at h
      · next hblank => exact .stay hstart hblank (ih h)
      next hblank =>
      split at h
      · next hup =>
        subst hup
        exact .up hstart (ih h)
      next hup =>
      have hname : IsName name := ⟨fun h => hblank (.inl h), fun h => hblank (.inr h), hup⟩
      split at h
      · cases h
      next hlength =>
      split at h
      · cases h
      · next node hlink hnode => exact .down hstart hname (Nat.not_lt.1 hlength) hnode hlink (ih h)
      · next hnone =>
        split at h
        · next hrest =>
          cases h
          exact .missing hstart hname (Nat.not_lt.1 hlength) hnone hrest
        · cases h
  · intro h
    induction h with
    | stop start => rfl
    | stay hstart hname _ ih => rw [advance, if_neg (by simp [hstart]), if_pos hname, ih]
    | up hstart _ ih => rw [advance, if_neg (by simp [hstart]), if_neg (by simp), if_pos rfl, ih]
    | @down start names place name found node hstart hname hlength hnode hlink _ ih =>
      rw [advance, if_neg (by simp [hstart]), if_neg (by simp [hname.1, hname.2.1]),
        if_neg hname.2.2, if_neg (Nat.not_lt.2 hlength), hnode]
      cases node with
      | link target => exact absurd rfl (hlink target)
      | directory => exact ih
      | file contents => exact ih
    | missing hstart hname hlength hnone hrest =>
      rw [advance, if_neg (by simp [hstart]), if_neg (by simp [hname.1, hname.2.1]),
        if_neg hname.2.2, if_neg (Nat.not_lt.2 hlength), hnone]
      exact if_pos hrest

namespace Reaches

variable {found : Option Node}

theorem lookup_start {name : Text} (h : disk.Reaches start (name :: names) place found) :
    disk.lookup start = some .directory := by
  cases h <;> assumption

theorem eq_of_file (h : disk.Reaches start names place found)
    (hstart : disk.lookup start = some (.file contents)) : names = [] ∧ place = start := by
  cases names with
  | nil =>
    cases h
    exact ⟨rfl, rfl⟩
  | cons name names => simp [h.lookup_start] at hstart

theorem found_eq (h : disk.Reaches start names place found) : found = disk.lookup place := by
  induction h with
  | stop => rfl
  | stay _ _ _ ih => exact ih
  | up _ _ ih => exact ih
  | down _ _ _ _ _ _ ih => exact ih
  | missing _ _ _ hnone _ => exact hnone.symm

theorem update (h : disk.Reaches start names place found)
    (hdirectories : ∀ names, disk.lookup names = some .directory →
      disk'.lookup names = some .directory)
    (hfound : found ≠ some .directory) (hplace : disk'.lookup place = some (.file contents))
    (hlast : found = none → names.getLast? ≠ some []) :
    disk'.Reaches start names place (some (.file contents)) := by
  have hbehind : ∀ {name : Text} {names : List Text}, (name :: names).getLast? ≠ some [] →
      names.getLast? ≠ some [] := by
    intro name names hlast
    cases names with
    | nil => simp
    | cons => simpa using hlast
  induction h with
  | stop start => exact hplace ▸ .stop start
  | stay hstart hname _ ih =>
    exact .stay (hdirectories _ hstart) hname (ih hfound hplace fun h => hbehind (hlast h))
  | up hstart _ ih =>
    exact .up (hdirectories _ hstart) (ih hfound hplace fun h => hbehind (hlast h))
  | @down start names place name found node hstart hname hlength hnode hlink hrest ih =>
    have hrest' : disk'.Reaches (start ++ [name]) names place (some (.file contents)) :=
      ih hfound hplace fun h => hbehind (hlast h)
    cases node with
    | link target => exact absurd rfl (hlink target)
    | directory =>
      exact .down (hdirectories _ hstart) hname hlength (hdirectories _ hnode) (by simp) hrest'
    | file old =>
      obtain ⟨-, rfl⟩ := hrest.eq_of_file hnode
      exact .down (hdirectories _ hstart) hname hlength hplace (by simp) hrest'
  | @missing start names name hstart hname hlength hnone hrest =>
    obtain rfl : names = [] := by
      by_contra hne
      have hblank := List.all_eq_true.1 hrest _ (List.getLast_mem hne)
      refine hbehind (hlast rfl) ?_
      rw [List.getLast?_eq_some_getLast hne, of_decide_eq_true hblank]
    exact .down (hdirectories _ hstart) hname hlength hplace (by simp) (hplace ▸ .stop _)

theorem lookup_dropLast (h : disk.Reaches start names place found) (htree : disk.IsTree)
    (hstart : disk.lookup start = some .directory) :
    disk.lookup place.dropLast = some .directory := by
  induction h with
  | stop start => exact htree.closed _ _ hstart
  | stay _ _ _ ih => exact ih hstart
  | up _ _ ih => exact ih (htree.closed _ _ hstart)
  | @down start names place name found node _ _ _ hnode hlink hrest ih =>
    cases node with
    | link target => exact absurd rfl (hlink target)
    | directory => exact ih hnode
    | file contents =>
      obtain ⟨-, rfl⟩ := hrest.eq_of_file hnode
      exact htree.closed _ _ hnode
  | missing hstart => rwa [List.dropLast_concat]

theorem isName_last {last : Text} (h : disk.Reaches start (names ++ [last]) place found)
    (htree : disk.IsTree) (hfound : found = some (.file contents)) : IsName last := by
  generalize hways : names ++ [last] = ways at h
  induction h generalizing names with
  | stop => simp at hways
  | @stay start rest place name found hstart hname hrest ih =>
    cases names with
    | nil =>
      obtain ⟨rfl, rfl⟩ : last = name ∧ [] = rest := by simpa using hways
      rw [hrest.found_eq] at hfound
      cases hrest
      simp [hstart] at hfound
    | cons first names => exact ih hfound (List.cons.inj hways).2
  | @up start rest place found hstart hrest ih =>
    cases names with
    | nil =>
      obtain ⟨rfl, rfl⟩ : last = [.char '.', .char '.'] ∧ [] = rest := by simpa using hways
      rw [hrest.found_eq] at hfound
      cases hrest
      simp [htree.closed _ _ hstart] at hfound
    | cons first names => exact ih hfound (List.cons.inj hways).2
  | @down start rest place name found node hstart hname hlength hnode hlink hrest ih =>
    cases names with
    | nil =>
      obtain ⟨rfl, rfl⟩ : last = name ∧ [] = rest := by simpa using hways
      exact hname
    | cons first names => exact ih hfound (List.cons.inj hways).2
  | missing => cases hfound

end Reaches

theorem LinkFree.locate_eq_ok_iff (h : disk.LinkFree) {found : Option Node} :
    disk.locate path = .ok (place, found) ↔
      obstacle? path = none ∧ path ≠ [] ∧ path.pathSize ≤ maxPathBytes ∧
        disk.Reaches (startOf disk.here path) (components path) place found := by
  rw [← advance_eq_done_iff]
  unfold locate walk
  split
  · next hobstacle => simp [hobstacle]
  next hobstacle =>
  split_ifs with hempty hlength
  · simp [hempty]
  · simp [Nat.not_le.2 hlength]
  · simp only [hobstacle, hempty, Nat.not_lt.1 hlength, not_false_eq_true, ne_eq, true_and]
    split
    · next hfault => simp [hfault]
    · next hdone => simp [hdone]
    · next hlink => cases h.advance_eq_done hlink

theorem LinkFree.eq_placeOf (h : disk.LinkFree) {found : Option Node}
    (hreaches : disk.Reaches (startOf disk.here path) (components path) place found) :
    place = disk.placeOf path := by
  cases h.advance_eq_done (advance_eq_done_iff.2 hreaches)
  rfl

theorem readBytes_eq_ok_iff :
    disk.readBytes path = .ok contents ↔
      ∃ names, disk.locate path = .ok (names, some (.file contents)) := by
  unfold readBytes
  split <;> simp_all

namespace IsTree

theorem isName_of_readBytes (h : disk.IsTree) {front : List Text} {last : Text}
    (hcomponents : components path = front ++ [last])
    (hread : disk.readBytes path = .ok contents) : IsName last := by
  obtain ⟨place, hlocate⟩ := readBytes_eq_ok_iff.1 hread
  obtain ⟨-, -, -, hreaches⟩ := h.linkFree.locate_eq_ok_iff.1 hlocate
  rw [hcomponents] at hreaches
  exact hreaches.isName_last h rfl

theorem readBytes_of_update (h : disk.IsTree) (hhere : disk'.here = disk.here)
    (hdirectories : ∀ names, disk.lookup names = some .directory →
      disk'.lookup names = some .directory)
    {found : Option Node} (hlocate : disk.locate path = .ok (place, found))
    (hfound : found ≠ some .directory)
    (hplace : disk'.lookup (disk.placeOf path) = some (.file contents))
    (hlast : found = none → (components path).getLast? ≠ some []) :
    disk'.readBytes path = .ok contents := by
  obtain ⟨hobstacle, hempty, hlength, hreaches⟩ := h.linkFree.locate_eq_ok_iff.1 hlocate
  rw [← h.linkFree.eq_placeOf hreaches] at hplace
  have hreaches' := hreaches.update hdirectories hfound hplace hlast
  rw [← hhere] at hreaches'
  refine readBytes_eq_ok_iff.2 ⟨place, ?_⟩
  rw [locate_eq_walk hobstacle hempty hlength, walk, advance_eq_done_iff.2 hreaches']

theorem readBytes_of_kept (h : disk.IsTree) (hhere : disk'.here = disk.here)
    (hdirectories : ∀ names, disk.lookup names = some .directory →
      disk'.lookup names = some .directory)
    (hkept : ∀ node, disk.lookup (disk.placeOf path) = some node →
      disk'.lookup (disk.placeOf path) = some node)
    (hread : disk.readBytes path = .ok contents) : disk'.readBytes path = .ok contents := by
  obtain ⟨place, hlocate⟩ := readBytes_eq_ok_iff.1 hread
  obtain ⟨-, -, -, hreaches⟩ := h.linkFree.locate_eq_ok_iff.1 hlocate
  have hplace := hreaches.found_eq.symm
  rw [h.linkFree.eq_placeOf hreaches] at hplace
  exact h.readBytes_of_update hhere hdirectories hlocate (by simp) (hkept _ hplace) (by simp)

end IsTree

end Relink.Disk
