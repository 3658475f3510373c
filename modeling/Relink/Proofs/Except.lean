namespace Relink

variable {α β ε : Type}

theorem bind_eq_ok {first : Except ε α} {next : α → Except ε β} {result : β}
    (h : first >>= next = .ok result) : ∃ value, first = .ok value ∧ next value = .ok result := by
  cases first with
  | ok value => exact ⟨value, rfl, h⟩
  | error stop => cases h

@[simp] theorem ok_bind (value : α) (next : α → Except ε β) :
    Except.ok value >>= next = next value :=
  rfl

@[simp] theorem error_bind (stop : ε) (next : α → Except ε β) :
    Except.error stop >>= next = .error stop := rfl

theorem bind_eq_error {first : Except ε α} {next : α → Except ε β} {stop : ε}
    (h : first >>= next = .error stop) :
    first = .error stop ∨ ∃ value, first = .ok value ∧ next value = .error stop := by
  cases first with
  | ok value => exact .inr ⟨value, rfl, h⟩
  | error stop =>
    cases h
    exact .inl rfl

@[simp] theorem mapError_ok (value : α) (f : ε → β) : (Except.ok value).mapError f = .ok value :=
  rfl

@[simp] theorem mapError_error (stop : ε) (f : ε → β) :
    (Except.error stop : Except ε α).mapError f = .error (f stop) := rfl

theorem mapError_eq_ok {first : Except ε α} {f : ε → β} {value : α} :
    first.mapError f = .ok value ↔ first = .ok value := by
  cases first with
  | ok result => exact ⟨by rintro ⟨⟩; rfl, by rintro ⟨⟩; rfl⟩
  | error stop => exact ⟨nofun, nofun⟩

theorem mapError_eq_error {first : Except ε α} {f : ε → β} {stop : β} :
    first.mapError f = .error stop ↔ ∃ fault, first = .error fault ∧ f fault = stop := by
  cases first with
  | ok result => exact ⟨nofun, nofun⟩
  | error fault => exact ⟨by rintro ⟨⟩; exact ⟨fault, rfl, rfl⟩, by rintro ⟨_, ⟨⟩, rfl⟩; rfl⟩

theorem toOption_eq_some_iff {first : Except ε α} {value : α} :
    first.toOption = some value ↔ first = .ok value := by
  cases first <;> simp [Except.toOption]

section

variable {f : α → Except ε β} {inputs before after : List α} {input : α}

theorem exists_mapM_eq_ok (h : ∀ input ∈ inputs, ∃ output, f input = .ok output) :
    ∃ outputs, inputs.mapM f = .ok outputs := by
  induction inputs with
  | nil => exact ⟨[], rfl⟩
  | cons input inputs ih =>
    obtain ⟨⟨first, hfirst⟩, hinputs⟩ := List.forall_mem_cons.1 h
    obtain ⟨rest, hrest⟩ := ih hinputs
    refine ⟨first :: rest, ?_⟩
    rw [List.mapM_cons, hfirst, hrest]
    rfl

theorem mapM_eq_error {stop : ε} (h : ∀ other ∈ before, ∃ output, f other = .ok output)
    (hstop : f input = .error stop) : (before ++ input :: after).mapM f = .error stop := by
  induction before with
  | nil =>
    rw [List.nil_append, List.mapM_cons, hstop]
    rfl
  | cons other before ih =>
    obtain ⟨⟨first, hfirst⟩, hbefore⟩ := List.forall_mem_cons.1 h
    rw [List.cons_append, List.mapM_cons, hfirst, ih hbefore]
    rfl

end

section

variable {first : Except ε α} {p : α → Prop} [DecidablePred p]

instance decidableExistsOk : Decidable (∃ value, first = .ok value) :=
  match first with
  | .ok value => .isTrue ⟨value, rfl⟩
  | .error _ => .isFalse nofun

instance decidableExistsOkAnd : Decidable (∃ value, first = .ok value ∧ p value) :=
  match first with
  | .ok value =>
    decidable_of_iff (p value) ⟨fun h => ⟨value, rfl, h⟩, fun ⟨_, heq, h⟩ => Except.ok.inj heq ▸ h⟩
  | .error _ => .isFalse nofun

instance decidableForallOk : Decidable (∀ value, first = .ok value → p value) :=
  match first with
  | .ok value =>
    decidable_of_iff (p value) ⟨fun h _ heq => Except.ok.inj heq ▸ h, fun h => h value rfl⟩
  | .error _ => .isTrue nofun

end

end Relink
