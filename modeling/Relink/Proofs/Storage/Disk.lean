import Mathlib.Tactic.SplitIfs
import Relink.Proofs.Text.Encoding
import Relink.Storage.Disk

namespace Relink.Disk

variable {disk : Disk} {path : Text} {contents : Bytes} {start names : List Text}

def LinkFree (disk : Disk) : Prop := ∀ names target, (names, Node.link target) ∉ disk.nodes

def turn (reached : List Text) (name : Text) : List Text :=
  if name = [] ∨ name = [.char '.'] then reached
  else if name = [.char '.', .char '.'] then reached.dropLast
  else reached ++ [name]

def places (disk : Disk) : List Text :=
  disk.files.map fun (names, _) => pathOf (Path.collapse true names)

@[simp] theorem length_places (disk : Disk) : disk.places.length = disk.files.length := by
  simp [places]

theorem obstacle?_cases {kind : FaultKind} (h : obstacle? path = some kind) :
    kind = .unusableName ∨ ∃ unencodable, kind = .unencodable unencodable := by
  unfold obstacle? at h
  split at h
  · cases h
    exact .inr ⟨_, rfl⟩
  · split_ifs at h
    cases h
    exact .inl rfl

theorem obstacle?_eq_none_iff : obstacle? path = none ↔
    (∀ c ∈ path, c.pathSize?.isSome = true) ∧ .char '\x00' ∉ path := by
  rw [← Text.exists_encodeFrom_eq_ok_iff 0, obstacle?, Text.pathSizes?]
  cases Text.encodeFrom CodePoint.pathSize? 0 path <;> simp

theorem obstacle?_eq_some_unusableName (h : obstacle? path = some .unusableName) :
    .char '\x00' ∈ path := by
  unfold obstacle? at h
  split at h
  · cases h
  · split_ifs at h with hnull
    exact hnull

theorem locate_eq_walk (hobstacle : obstacle? path = none) (hne : path ≠ [])
    (hlength : path.pathSize ≤ maxPathBytes) :
    disk.locate path = disk.walk maxLinks (startOf disk.here path)
      (Path.Posix.components path) := by
  simp only [locate, hobstacle]
  rw [if_neg hne, if_neg (Nat.not_lt.2 hlength)]

theorem mem_nodes_of_lookup {node : Node} (h : disk.lookup names = some node)
    (hnode : node ≠ .directory) : (names, node) ∈ disk.nodes := by
  unfold lookup at h
  split at h
  · cases h
    exact absurd rfl hnode
  · obtain ⟨before, after, hnodes, -⟩ := List.lookup_eq_some_iff.1 h
    simp [hnodes]

theorem mem_places_of_lookup (h : disk.lookup names = some (.file contents)) :
    pathOf (Path.collapse true names) ∈ disk.places := by
  have hmem := mem_nodes_of_lookup h (by simp)
  refine List.mem_map.2 ⟨(names, contents), ?_, rfl⟩
  exact List.mem_filterMap.2 ⟨_, hmem, rfl⟩

theorem foldl_turn_blank (h : names.all (· = []) = true) : names.foldl turn start = start := by
  induction names with
  | nil => rfl
  | cons name rest ih =>
    simp only [List.all_cons, Bool.and_eq_true, decide_eq_true_eq] at h
    simpa [turn, h.1] using ih h.2

namespace LinkFree

theorem lookup_ne_link (h : disk.LinkFree) (names : List Text) (target : Text) :
    disk.lookup names ≠ some (.link target) :=
  fun hlink => h names target (mem_nodes_of_lookup hlink (by simp))

theorem advance_ne_tooManyLinks (disk : Disk) (start names : List Text) :
    disk.advance start names ≠ .error .tooManyLinks := by
  induction names generalizing start with
  | nil => simp [advance]
  | cons name rest ih =>
    unfold advance
    repeat' split
    all_goals first | exact ih _ | simp

theorem advance_eq_done (h : disk.LinkFree) {halt : Halt}
    (hok : disk.advance start names = .ok halt) :
    halt = .done (names.foldl turn start) (disk.lookup (names.foldl turn start)) := by
  induction names generalizing start with
  | nil => simpa [advance] using hok.symm
  | cons name rest ih =>
    rw [List.foldl_cons]
    unfold advance at hok
    split at hok
    · cases hok
    split at hok
    · next hblank => simpa [turn, hblank] using ih hok
    next hblank =>
    split at hok
    · next hup => simpa [turn, hup] using ih hok
    next hup =>
    have hturn : turn start name = start ++ [name] := by simp only [turn, if_neg hblank, if_neg hup]
    rw [hturn]
    split at hok
    · cases hok
    split at hok
    · next target hlink => exact absurd hlink (h.lookup_ne_link _ _)
    · exact ih hok
    · next hnone =>
      split at hok
      · next hrest =>
        rw [foldl_turn_blank hrest, hnone]
        cases hok
        rfl
      · cases hok

theorem walk_ne_tooManyLinks (h : disk.LinkFree) (links : Nat) (start names : List Text) :
    disk.walk links start names ≠ .error .tooManyLinks := by
  unfold walk
  split
  · next kind hkind =>
    intro hkinds
    cases hkinds
    exact advance_ne_tooManyLinks _ _ _ hkind
  · simp
  · next hlink => cases h.advance_eq_done hlink

theorem walk_eq (h : disk.LinkFree) {links : Nat} {found : List Text × Option Node}
    (hok : disk.walk links start names = .ok found) :
    found = (names.foldl turn start, disk.lookup (names.foldl turn start)) := by
  unfold walk at hok
  split at hok
  · cases hok
  · next hdone =>
    cases hok
    cases h.advance_eq_done hdone
    rfl
  · next hlink => cases h.advance_eq_done hlink

theorem locate_ne_tooManyLinks (h : disk.LinkFree) (path : Text) :
    disk.locate path ≠ .error .tooManyLinks := by
  unfold locate
  split
  · next kind hkind =>
    obtain rfl | ⟨unencodable, rfl⟩ := obstacle?_cases hkind <;> simp
  · split_ifs
    · simp
    · simp
    · exact h.walk_ne_tooManyLinks _ _ _

end LinkFree

end Relink.Disk
