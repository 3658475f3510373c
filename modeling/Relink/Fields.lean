import Relink.Text

namespace Relink

abbrev Fields (α : Type) := List (Text × α)

namespace Fields

variable {α : Type}

def get? (fields : Fields α) (name : Text) : Option α :=
  (fields.find? (·.1 = name)).map (·.2)

def put (fields : Fields α) (name : Text) (value : α) : Fields α :=
  match fields with
  | [] => [(name, value)]
  | (key, old) :: rest =>
    if key = name then (key, value) :: rest else (key, old) :: put rest name value

def ofList (entries : List (Text × α)) : Fields α :=
  entries.foldl (fun fields (name, value) => fields.put name value) []

def merge (older newer : Fields α) : Fields α :=
  newer.foldl (fun fields (name, value) => fields.put name value) older

theorem get?_put (fields : Fields α) (name other : Text) (value : α) :
    (fields.put name value).get? other =
      if other = name then some value else fields.get? other := by
  induction fields with
  | nil => by_cases h : name = other <;> simp [put, get?, h, eq_comm]
  | cons entry rest ih =>
    obtain ⟨key, old⟩ := entry
    by_cases hk : key = name
    · subst hk
      by_cases h : key = other
      · simp [put, get?, h]
      · have h' : ¬other = key := fun e => h e.symm
        simp [put, get?, h, h']
    · by_cases h : key = other
      · subst h; simp [put, get?, hk]
      · simpa [put, get?, hk, h] using ih

end Fields

end Relink
