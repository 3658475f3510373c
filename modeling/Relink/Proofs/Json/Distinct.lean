import Relink.Json.Reader
import Relink.Proofs.Except
import Relink.Proofs.Fields

namespace Relink.Json

inductive Distinct : Json → Prop
  | null : Distinct .null
  | bool (value : Bool) : Distinct (.bool value)
  | number (n : Number) : Distinct (.number n)
  | string (text : Text) : Distinct (.string text)
  | array {items : List Json} (h : ∀ item ∈ items, Distinct item) : Distinct (.array items)
  | object {fields : Fields Json} (names : fields.names.Nodup)
      (h : ∀ entry ∈ fields, Distinct entry.2) : Distinct (.object fields)

theorem distinct_ofList {entries : List (Text × Json)} (h : ∀ entry ∈ entries, Distinct entry.2) :
    Distinct (.object (Fields.ofList entries)) := by
  suffices H : ∀ fields : Fields Json, fields.names.Nodup → (∀ entry ∈ fields, Distinct entry.2) →
      Distinct (.object
        (entries.foldl (fun fields entry => Fields.put fields entry.1 entry.2) fields)) from
    H [] .nil (by simp)
  induction entries with
  | nil =>
    intro fields names hfields
    exact .object names hfields
  | cons entry rest ih =>
    obtain ⟨hentry, hrest⟩ := List.forall_mem_cons.1 h
    intro fields names hfields
    refine ih hrest _ (Fields.nodup_names_put names _ _) ?_
    intro other hother
    obtain hother | rfl := Fields.mem_put hother
    · exact hfields other hother
    · exact hentry

theorem distinct_of_readWord? {text rest : Text} {value : Json}
    (h : readWord? text = some (value, rest)) : Distinct value := by
  obtain ⟨⟨word, found⟩, hmem, h⟩ := List.exists_of_findSome?_eq_some h
  dsimp only at h
  split at h
  · cases h
    simp only [words, List.mem_cons, Prod.mk.injEq, List.not_mem_nil, or_false] at hmem
    obtain ⟨-, rfl⟩ | ⟨-, rfl⟩ | ⟨-, rfl⟩ | ⟨-, rfl⟩ | ⟨-, rfl⟩ | ⟨-, rfl⟩ := hmem
    · exact .null
    · exact .bool true
    · exact .bool false
    · exact .number _
    · exact .number _
    · exact .number _
  · cases h

theorem distinct_of_read (fuel : Nat) :
    (∀ text value rest, readValue fuel text = .ok (value, rest) → Distinct value) ∧
    (∀ text entries rest, readMembers fuel text = .ok (entries, rest) →
      ∀ entry ∈ entries, Distinct entry.2) ∧
    (∀ text items rest, readElements fuel text = .ok (items, rest) →
      ∀ item ∈ items, Distinct item) := by
  induction fuel with
  | zero => simp [readValue, readMembers, readElements]
  | succ fuel ih =>
    obtain ⟨value, members, elements⟩ := ih
    refine ⟨?_, ?_, ?_⟩
    · intro text found rest h
      unfold readValue at h
      split at h
      · obtain ⟨⟨content, _⟩, -, h⟩ := bind_eq_ok h
        cases h
        exact .string content
      · split at h
        · cases h
          exact .object .nil (by simp)
        · obtain ⟨⟨entries, _⟩, hentries, h⟩ := bind_eq_ok h
          cases h
          exact distinct_ofList (members _ _ _ hentries)
      · split at h
        · cases h
          exact .array (by simp)
        · obtain ⟨⟨items, _⟩, hitems, h⟩ := bind_eq_ok h
          cases h
          exact .array (elements _ _ _ hitems)
      · split at h
        · next hword =>
          cases h
          exact distinct_of_readWord? hword
        · cases h
          exact .number _
        · cases h
    · intro text entries rest h
      unfold readMembers at h
      split at h
      · obtain ⟨⟨key, _⟩, -, h⟩ := bind_eq_ok h
        dsimp only at h
        split at h
        · obtain ⟨⟨item, _⟩, hitem, h⟩ := bind_eq_ok h
          have first : Distinct item := value _ _ _ hitem
          dsimp only at h
          split at h
          · cases h
            simpa using first
          · obtain ⟨⟨more, _⟩, hmore, h⟩ := bind_eq_ok h
            cases h
            exact List.forall_mem_cons.2 ⟨first, members _ _ _ hmore⟩
          · cases h
        · cases h
      · cases h
    · intro text items rest h
      unfold readElements at h
      obtain ⟨⟨item, _⟩, hitem, h⟩ := bind_eq_ok h
      have first : Distinct item := value _ _ _ hitem
      dsimp only at h
      split at h
      · cases h
        simpa using first
      · obtain ⟨⟨more, _⟩, hmore, h⟩ := bind_eq_ok h
        cases h
        exact List.forall_mem_cons.2 ⟨first, elements _ _ _ hmore⟩
      · cases h

theorem distinct_of_parse {text : Text} {value : Json} (h : parse text = .ok value) :
    Distinct value := by
  have h := mapError_eq_ok.1 h
  unfold document at h
  split at h
  · cases h
  · obtain ⟨⟨found, _⟩, hfound, h⟩ := bind_eq_ok h
    dsimp only at h
    split at h
    · cases h
      exact (distinct_of_read _).1 _ _ _ hfound
    · cases h

end Relink.Json
