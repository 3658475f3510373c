import Mathlib.Data.List.Nodup
import Relink.Fields

namespace Relink.Fields

variable {α : Type}

def names (fields : Fields α) : List Text := fields.map (·.1)

theorem get?_eq_none {fields : Fields α} {name : Text} (h : name ∉ names fields) :
    get? fields name = none := by
  rw [get?, Option.map_eq_none_iff, List.find?_eq_none]
  intro entry hentry hname
  exact h (List.mem_map.2 ⟨entry, hentry, of_decide_eq_true hname⟩)

theorem mem_of_get? {fields : Fields α} {name : Text} {value : α}
    (h : get? fields name = some value) :
    (name, value) ∈ fields := by
  obtain ⟨⟨key, found⟩, hfind, rfl⟩ := Option.map_eq_some_iff.1 h
  obtain rfl : key = name := by simpa using List.find?_some hfind
  exact List.mem_of_find?_eq_some hfind

theorem get?_cons (key name : Text) (value : α) (fields : Fields α) :
    get? ((key, value) :: fields) name = if key = name then some value else get? fields name := by
  by_cases h : key = name <;> simp [get?, h]

theorem mem_put {fields : Fields α} {name : Text} {value : α} {entry : Text × α}
    (h : entry ∈ put fields name value) : entry ∈ fields ∨ entry = (name, value) := by
  induction fields with
  | nil => exact .inr (List.mem_singleton.1 h)
  | cons head rest ih =>
    obtain ⟨key, old⟩ := head
    unfold put at h
    split at h
    · next hkey =>
      subst hkey
      obtain rfl | h := List.mem_cons.1 h
      · exact .inr rfl
      · exact .inl (List.mem_cons_of_mem _ h)
    · obtain rfl | h := List.mem_cons.1 h
      · exact .inl List.mem_cons_self
      · exact (ih h).imp_left (List.mem_cons_of_mem _)

theorem names_put (fields : Fields α) (name : Text) (value : α) :
    names (put fields name value) =
      if name ∈ names fields then names fields else names fields ++ [name] := by
  induction fields with
  | nil => rfl
  | cons head rest ih =>
    obtain ⟨key, old⟩ := head
    by_cases hkey : key = name
    · simp [put, names, hkey]
    · have hname : name ≠ key := fun heq => hkey heq.symm
      simp only [names] at ih
      by_cases hmem : name ∈ rest.map (·.1) <;> simp_all [put, names]

theorem nodup_names_put {fields : Fields α} (h : (names fields).Nodup) (name : Text) (value : α) :
    (names (put fields name value)).Nodup := by
  rw [names_put]
  split
  · exact h
  · next hname => simpa using h.concat hname

theorem get?_merge {newer : Fields α} (h : (names newer).Nodup) (older : Fields α) (name : Text) :
    get? (merge older newer) name = (get? newer name).or (get? older name) := by
  induction newer generalizing older with
  | nil => rfl
  | cons head rest ih =>
    obtain ⟨key, value⟩ := head
    obtain ⟨hkey, hrest⟩ := List.nodup_cons.1 h
    change get? (merge (put older key value) rest) name = _
    rw [ih hrest, get?_put, get?_cons]
    by_cases hname : key = name
    · subst hname
      rw [get?_eq_none hkey, if_pos rfl, if_pos rfl]
      rfl
    · rw [if_neg hname, if_neg fun heq => hname heq.symm]

end Relink.Fields
