import Relink.Storage.Disk

namespace Relink

def Storage.Usable (storage : Storage) (path : Text) : Prop :=
  ∀ fault, storage.read path = .error (.fault fault) → fault.kind ≠ .unusableName

namespace Disk

variable {disk : Disk} {path : Text}

theorem number?_of_advance {start names : List Text} {kind : FaultKind}
    (h : disk.advance start names = .error kind) : kind.number?.isSome = true := by
  induction names generalizing start with
  | nil => cases h
  | cons name rest ih =>
    unfold advance at h
    repeat' split at h
    all_goals first | exact ih h | cases h <;> rfl

theorem number?_of_walk {links : Nat} {start names : List Text} {kind : FaultKind}
    (h : disk.walk links start names = .error kind) : kind.number?.isSome = true := by
  induction links generalizing start names with
  | zero =>
    unfold walk at h
    split at h
    · next hadvance =>
      cases h
      exact number?_of_advance hadvance
    · cases h
    · cases h
      rfl
  | succ links ih =>
    unfold walk at h
    split at h
    · next hadvance =>
      cases h
      exact number?_of_advance hadvance
    · cases h
    · exact ih h

theorem locate_eq_error {kind : FaultKind} (h : disk.locate path = .error kind) :
    obstacle? path = some kind ∨ kind.number?.isSome = true := by
  unfold locate at h
  split at h
  · next hobstacle =>
    cases h
    exact .inl hobstacle
  · right
    split at h
    · cases h
      rfl
    split at h
    · cases h
      rfl
    · exact number?_of_walk h

theorem readBytes_eq_error {fault : Fault} (h : disk.readBytes path = .error fault) :
    obstacle? path = some fault.kind ∨ fault.kind.number?.isSome = true := by
  unfold readBytes at h
  split at h
  · cases h
  · cases h
    exact .inr rfl
  · cases h
    exact .inr rfl
  · next hlocate =>
    cases h
    exact locate_eq_error hlocate

theorem locate_of_obstacle {kind : FaultKind} (h : obstacle? path = some kind) :
    disk.locate path = .error kind := by
  simp only [locate, h]

theorem storage_usable_iff : disk.storage.Usable path ↔ obstacle? path ≠ some .unusableName := by
  constructor
  · intro usable hobstacle
    refine usable (.at .unusableName path) ?_ rfl
    simp only [storage, readText, readBytes, locate_of_obstacle hobstacle]
  · intro hobstacle fault hread hkind
    simp only [storage, readText] at hread
    split at hread
    · next hfault =>
      cases hread
      obtain h | h := readBytes_eq_error hfault <;> rw [hkind] at h
      · exact hobstacle h
      · cases h
    · split at hread <;> cases hread

end Disk

end Relink
