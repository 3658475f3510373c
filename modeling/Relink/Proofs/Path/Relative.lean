import Relink.Proofs.Path.Location

namespace Relink.Path.Posix

def wayOf : List Text → Text
  | [] => ['.']
  | parts => Text.joinWith ['/'] parts

section

variable {parts : List Text}

theorem foldl_push_components_wayOf (hslash : ∀ part ∈ parts, .char '/' ∉ part)
    (stack : List Text) :
    (components (wayOf parts)).foldl (push true) stack = parts.foldl (push true) stack := by
  cases parts with
  | nil => exact push_dot true stack
  | cons part parts =>
    congr 1
    exact List.splitOn_intercalate (CodePoint.char '/') hslash (List.cons_ne_nil part parts)

theorem isAbsolute_wayOf (hne : ∀ part ∈ parts, part ≠ [])
    (hslash : ∀ part ∈ parts, .char '/' ∉ part) :
    isAbsolute (wayOf parts) = false := by
  cases parts with
  | nil => rfl
  | cons part parts => exact isAbsolute_joinWith hne hslash

theorem mem_wayOf {c : CodePoint} (h : c ∈ wayOf parts) :
    c ∈ ("./" : Text) ∨ ∃ part ∈ parts, c ∈ part := by
  cases parts with
  | nil => exact .inl (List.mem_singleton.1 h ▸ List.mem_cons_self)
  | cons part parts =>
    obtain h | h := Text.mem_of_mem_joinWith h
    · exact .inl (List.mem_singleton.1 h ▸ List.mem_cons_of_mem _ List.mem_cons_self)
    · exact .inr h

end

namespace Location

def wayTo (start target : Location) : Text :=
  match steps (· = ·) start.names target.names with
  | [] => ['.']
  | parts => Text.joinWith ['/'] parts

theorem wayTo_eq (start target : Location) :
    start.wayTo target = wayOf (steps (· = ·) start.names target.names) := by
  rw [wayTo, wayOf.eq_def]

variable (start target : Location)

theorem relative?_text (here : Text) :
    relative? here target.text start.text = some (start.wayTo target) := by
  simp only [relative?, absolute_text, filter_components_text]
  rw [if_neg (by simp [text]), wayTo]
  cases steps (· = ·) start.names target.names with
  | nil => rfl
  | cons step parts => rfl

theorem noSlash_steps {same : Text → Text → Bool} :
    ∀ step ∈ steps same start.names target.names, .char '/' ∉ step := by
  intro step hstep
  obtain rfl | hstep := mem_steps hstep
  · simp
  · exact target.noSlash step hstep

theorem ne_nil_steps {same : Text → Text → Bool} :
    ∀ step ∈ steps same start.names target.names, step ≠ [] := by
  intro step hstep
  obtain rfl | hstep := mem_steps hstep
  · simp
  · exact (target.isName step hstep).1

@[simp] theorem follow_wayTo : start.follow (start.wayTo target) = target := by
  apply ext
  simp only [follow, wayTo_eq]
  rw [foldl_push_components_wayOf (noSlash_steps start target),
    foldl_push_steps start.isName target.isName, List.reverse_reverse]

theorem isAbsolute_wayTo : isAbsolute (start.wayTo target) = false := by
  rw [wayTo_eq]
  exact isAbsolute_wayOf (ne_nil_steps start target) (noSlash_steps start target)

theorem mem_text_of_mem {location : Location} {c : CodePoint} {name : Text}
    (hname : name ∈ location.names) (hc : c ∈ name) : c ∈ location.text := by
  have hcomponent : name ∈ components location.text := by
    rw [components_text location (List.ne_nil_of_mem hname)]
    exact List.mem_cons_of_mem _ hname
  exact Text.mem_of_mem_splitOn hcomponent hc

theorem mem_wayTo {c : CodePoint} (h : c ∈ start.wayTo target) : c = '.' ∨ c ∈ target.text := by
  rw [wayTo_eq] at h
  obtain h | ⟨step, hstep, h⟩ := mem_wayOf h
  · obtain rfl | rfl : c = '.' ∨ c = '/' := by simpa using h
    · exact .inl rfl
    · exact .inr List.mem_cons_self
  · obtain rfl | hstep := mem_steps hstep
    · simp at h
      exact .inl h
    · exact .inr (mem_text_of_mem hstep h)

end Relink.Path.Posix.Location
