import Mathlib.Data.Finset.Card
import Mathlib.Data.Nat.Find
import Relink.Proofs.Path.Location
import Relink.Proofs.Storage.Leading

/-!
Links resolved. A path that can be walked to its end resolves to where it ends, however its links
are nested: none of them is met again while it is followed, so they are nested no deeper than there
are links.
-/

namespace Relink.Disk

open Relink.Path (IsName)
open Relink.Path.Posix (components)

variable {disk : Disk} {depth links : Nat} {start names front place : List Text} {name : Text}

/-- The ways of a resolution that comes to its end, with links nested at most so deep. -/
inductive Follows (disk : Disk) : Nat → List Text → List Text → List Text → Prop
  | stop (depth : Nat) (start : List Text) : Follows disk depth start [] start
  | stay {depth : Nat} {start names place : List Text} {name : Text}
      (hname : name = [] ∨ name = [.char '.'])
      (hrest : Follows disk depth start names place) :
      Follows disk depth start (name :: names) place
  | up {depth : Nat} {start names place : List Text}
      (hrest : Follows disk depth start.dropLast names place) :
      Follows disk depth start (['.', '.'] :: names) place
  | down {depth : Nat} {start names place : List Text} {name : Text} (hname : IsName name)
      (hlink : ∀ target, disk.lookup (start ++ [name]) ≠ some (.link target))
      (hrest : Follows disk depth (start ++ [name]) names place) :
      Follows disk depth start (name :: names) place
  | link {depth : Nat} {start names middle place : List Text} {name target : Text}
      (hname : IsName name) (hnode : disk.lookup (start ++ [name]) = some (.link target))
      (hinner : Follows disk depth (startOf start target) (components target) middle)
      (hrest : Follows disk (depth + 1) middle names place) :
      Follows disk (depth + 1) start (name :: names) place

namespace Follows

theorem follow_eq (h : disk.Follows depth start names place) :
    disk.follow depth start names = (place, true) := by
  induction h with
  | stop depth start => rw [follow, List.foldl_nil]
  | stay hname _ ih =>
    rw [follow] at ih ⊢
    simpa [hname] using ih
  | up _ ih =>
    rw [follow] at ih ⊢
    simpa using ih
  | @down depth start names place name hname hlink _ ih =>
    rw [follow] at ih ⊢
    obtain ⟨hne, hdot, hup⟩ := hname
    rw [← ih, List.foldl_cons]
    congr 1
    simp only [hne, hdot, hup, or_self, if_false, Bool.not_true, Bool.false_eq_true]
  | link hname hnode _ _ ihInner ihRest =>
    rw [follow] at ihRest ⊢
    obtain ⟨hne, hdot, hup⟩ := hname
    rw [← ihRest, List.foldl_cons]
    congr 1
    simp only [hne, hdot, hup, or_self, if_false, Bool.not_true, Bool.false_eq_true, hnode, ihInner]

theorem succ (h : disk.Follows depth start names place) :
    disk.Follows (depth + 1) start names place := by
  induction h with
  | stop depth start => exact .stop _ start
  | stay hname _ ih => exact .stay hname ih
  | up _ ih => exact .up ih
  | down hname hlink _ ih => exact .down hname hlink ih
  | link hname hnode _ _ ihInner ihRest => exact .link hname hnode ihInner ihRest

theorem mono {deeper : Nat} (h : disk.Follows depth start names place) (hdepth : depth ≤ deeper) :
    disk.Follows deeper start names place := by
  induction hdepth with
  | refl => exact h
  | step _ ih => exact ih.succ

theorem unique {depth' : Nat} {place' : List Text} (h : disk.Follows depth start names place)
    (h' : disk.Follows depth' start names place') : place = place' := by
  have heq := (h.mono (Nat.le_max_left depth depth')).follow_eq.symm.trans
    (h'.mono (Nat.le_max_right depth depth')).follow_eq
  exact congrArg Prod.fst heq

theorem exists_middle (h : disk.Follows depth start (front ++ names) place) :
    ∃ middle, disk.Follows depth start front middle ∧ disk.Follows depth middle names place := by
  induction front generalizing depth start with
  | nil => exact ⟨start, .stop _ _, h⟩
  | cons name front ih =>
    rw [List.cons_append] at h
    cases h with
    | stay hname hrest =>
      obtain ⟨middle, hfront, hnames⟩ := ih hrest
      exact ⟨middle, .stay hname hfront, hnames⟩
    | up hrest =>
      obtain ⟨middle, hfront, hnames⟩ := ih hrest
      exact ⟨middle, .up hfront, hnames⟩
    | down hname hlink hrest =>
      obtain ⟨middle, hfront, hnames⟩ := ih hrest
      exact ⟨middle, .down hname hlink hfront, hnames⟩
    | link hname hnode hinner hrest =>
      obtain ⟨middle, hfront, hnames⟩ := ih hrest
      exact ⟨middle, .link hname hnode hinner hfront, hnames⟩

end Follows

theorem Leads.follows (h : disk.Leads links start names place) :
    disk.Follows links start names place := by
  induction h with
  | stop links start => exact .stop links start
  | stay _ hname _ ih => exact .stay hname ih
  | up _ _ ih => exact .up ih
  | @down links start names place name node _ hname _ hnode hlink _ ih =>
    refine .down hname ?_ ih
    intro target htarget
    obtain rfl := Option.some.inj (hnode.symm.trans htarget)
    exact hlink target rfl
  | link _ hname _ hnode _ ih =>
    obtain ⟨middle, hinner, hrest⟩ := ih.exists_middle
    exact .link hname hnode hinner hrest.succ
  | @missing links start names name _ hname _ hnone hrest =>
    refine .down hname (by simp [hnone]) ?_
    clear hnone
    induction names with
    | nil => exact .stop _ _
    | cons blank names ih =>
      simp only [List.all_cons, Bool.and_eq_true, decide_eq_true_eq] at hrest
      exact .stay (.inl hrest.1) (ih hrest.2)

def Ends (disk : Disk) (depth : Nat) (link : List Text) (target : Text) : Prop :=
  ∃ middle, disk.Follows depth (startOf link.dropLast target) (components target) middle

def linkPlaces (disk : Disk) : Finset (List Text) :=
  (disk.nodes.filterMap fun
    | (names, .link _) => some names
    | _ => none).toFinset

theorem mem_linkPlaces {link : List Text} {target : Text}
    (h : disk.lookup link = some (.link target)) : link ∈ disk.linkPlaces := by
  rw [linkPlaces, List.mem_toFinset]
  exact List.mem_filterMap.2 ⟨_, mem_nodes_of_lookup h (by simp), rfl⟩

theorem card_linkPlaces_le (disk : Disk) : disk.linkPlaces.card ≤ disk.linkCount := by
  refine (List.toFinset_card_le _).trans (le_of_eq ?_)
  rw [linkCount, List.length_filterMap_eq_countP]
  congr 1
  funext ⟨names, node⟩
  cases node <;> rfl

/-- In a link only links that end sooner are met. So the link itself is not, and the links that can
be met become fewer with each one that is followed. -/
theorem Follows.card {depth : Nat} (h : disk.Follows depth start names place)
    (free : Finset (List Text))
    (met : ∀ link target, disk.lookup link = some (.link target) → link ∉ free →
      ∀ sooner < depth, ¬disk.Ends sooner link target) :
    disk.Follows free.card start names place := by
  induction depth using Nat.strong_induction_on generalizing start names place free with
  | _ depth ih =>
  induction h with
  | stop depth start => exact .stop _ start
  | stay hname _ ihRest => exact .stay hname (ihRest ih met)
  | up _ ihRest => exact .up (ihRest ih met)
  | down hname hlink _ ihRest => exact .down hname hlink (ihRest ih met)
  | @link depth start names middle place name target hname hnode hinner hrest _ ihRest =>
    have hends : disk.Ends depth (start ++ [name]) target := by
      refine ⟨middle, ?_⟩
      rwa [List.dropLast_concat]
    have hfree : start ++ [name] ∈ free := by
      by_contra hfree
      exact met _ target hnode hfree depth depth.lt_succ_self hends
    obtain ⟨soonest, ⟨middle', hsoonest⟩, least⟩ : ∃ soonest,
        disk.Ends soonest (start ++ [name]) target ∧
          ∀ sooner < soonest, ¬disk.Ends sooner (start ++ [name]) target := by
      classical
      have hexists : ∃ sooner, disk.Ends sooner (start ++ [name]) target := ⟨depth, hends⟩
      exact ⟨Nat.find hexists, Nat.find_spec hexists, fun _ => Nat.find_min hexists⟩
    have hdepth : soonest ≤ depth := Nat.not_lt.1 fun hlt => least depth hlt hends
    rw [List.dropLast_concat] at hsoonest
    obtain rfl := hsoonest.unique hinner
    have hinner' := ih soonest (Nat.lt_succ_of_le hdepth) hsoonest
      (free.erase (start ++ [name])) <| by
      intro link target' hlink hmem sooner hsooner
      rw [Finset.mem_erase, not_and_or, ne_eq, not_not] at hmem
      obtain rfl | hmem := hmem
      · obtain rfl : target = target' := by simpa using hnode.symm.trans hlink
        exact least sooner hsooner
      · exact met link target' hlink hmem sooner (by omega)
    have hrest' := ihRest ih met
    rw [← Finset.card_erase_add_one hfree] at hrest' ⊢
    exact .link hname hnode hinner' hrest'

theorem Follows.linkCount {depth : Nat} (h : disk.Follows depth start names place) :
    disk.Follows disk.linkCount start names place :=
  (h.card disk.linkPlaces fun _ _ hlink hmem => absurd (mem_linkPlaces hlink) hmem).mono
    disk.card_linkPlaces_le

inductive Plain (disk : Disk) : List Text → Prop
  | top : Plain disk []
  | under {front : List Text} {name : Text} (h : Plain disk front)
      (hfront : disk.lookup front = some .directory) (hname : IsName name)
      (hslash : .char '/' ∉ name) (hlength : Text.pathSize name ≤ maxNameBytes)
      (hlink : ∀ target, disk.lookup (front ++ [name]) ≠ some (.link target)) :
      Plain disk (front ++ [name])

namespace Plain

theorem dropLast (h : disk.Plain place) : disk.Plain place.dropLast := by
  cases h with
  | top => exact .top
  | under h => rwa [List.dropLast_concat]

theorem isName (h : disk.Plain place) : ∀ name ∈ place, IsName name ∧ .char '/' ∉ name := by
  induction h with
  | top => simp
  | under _ _ hname hslash _ _ ih =>
    exact List.forall_mem_append.2 ⟨ih, List.forall_mem_singleton.2 ⟨hname, hslash⟩⟩

theorem leads (h : disk.Plain place) (links : Nat) : disk.Leads links [] place place := by
  induction h with
  | top => exact .stop links []
  | under _ hfront hname _ hlength hlink ih => exact ih.concat hfront hname hlength hlink

def location (h : disk.Plain place) : Path.Posix.Location where
  names := place
  isName name hname := (h.isName name hname).1
  noSlash name hname := (h.isName name hname).2

theorem collapse_eq (h : disk.Plain place) : Path.collapse true place = place := by
  rw [Path.collapse, Path.foldl_push_names [] fun name hname => (h.isName name hname).1,
    List.append_nil, List.reverse_reverse]

theorem eq_of_pathOf {place' : List Text} (h : disk.Plain place) (h' : disk.Plain place')
    (heq : pathOf place = pathOf place') : place = place' :=
  calc place
    _ = (components (pathOf place)).filter (· ≠ []) := h.location.filter_components_text.symm
    _ = (components (pathOf place')).filter (· ≠ []) := by rw [heq]
    _ = place' := h'.location.filter_components_text

theorem locate_ne_tooManyLinks (h : disk.Plain place) :
    disk.locate (pathOf place) ≠ .error .tooManyLinks := by
  have walked : disk.walk maxLinks (startOf disk.here (pathOf place)) (components (pathOf place)) =
      .ok (place, disk.lookup place) := by
    rw [startOf, if_pos (by rfl)]
    by_cases hplace : place = []
    · subst hplace
      rfl
    · rw [show components (pathOf place) = [[]] ++ place from h.location.components_text hplace,
        walk_still (by simp) rfl, (h.leads maxLinks).walk_eq]
  unfold locate
  split
  · next kind hkind => obtain rfl | ⟨unencodable, rfl⟩ := obstacle?_cases hkind <;> simp
  · split_ifs <;> simp [walked]

end Plain

theorem Leads.plain (h : disk.Leads links start names place) (hstart : disk.Plain start)
    (hnames : ∀ name ∈ names, .char '/' ∉ name) : disk.Plain place := by
  induction h with
  | stop => exact hstart
  | stay _ _ _ ih => exact ih hstart (List.forall_mem_cons.1 hnames).2
  | up _ _ ih => exact ih hstart.dropLast (List.forall_mem_cons.1 hnames).2
  | @down links start names place name node hdirectory hname hlength hnode hlink _ ih =>
    obtain ⟨hslash, hnames⟩ := List.forall_mem_cons.1 hnames
    refine ih (.under hstart hdirectory hname hslash hlength ?_) hnames
    intro target htarget
    exact hlink target (Option.some.inj (hnode.symm.trans htarget))
  | link _ _ _ _ _ ih =>
    refine ih ?_ (List.forall_mem_append.2
      ⟨fun _ => Text.not_mem_of_mem_splitOn, (List.forall_mem_cons.1 hnames).2⟩)
    unfold startOf
    split
    · exact .top
    · exact hstart
  | missing hdirectory hname hlength hnone _ =>
    exact .under hstart hdirectory hname (List.forall_mem_cons.1 hnames).1 hlength (by simp [hnone])

theorem Finds.realPath_eq {path : Text} (h : disk.Finds path place)
    (habsolute : Path.Posix.isAbsolute path = true) :
    disk.Plain place ∧ disk.realPath path = pathOf place := by
  have hstart : startOf disk.here path = [] := if_pos habsolute
  have hleads := h.leads
  rw [hstart] at hleads
  have plain := hleads.plain .top fun _ => Text.not_mem_of_mem_splitOn
  refine ⟨plain, ?_⟩
  rw [realPath, hstart, hleads.follows.linkCount.follow_eq]
  exact congrArg pathOf plain.collapse_eq

end Relink.Disk
