import Relink.Literal

namespace Relink.Literal

/-- What the body of a literal stands for: a backslash leaves the character behind it as it is. -/
def decode : Text → Text
  | '\\' :: c :: rest => c :: decode rest
  | c :: rest => c :: decode rest
  | [] => []

def escape (mark : CodePoint) (text : Text) : Text :=
  text.flatMap fun (c : CodePoint) => if c = '\\' ∨ c = mark then ['\\', c] else [c]

def Opens (raw : Text) (mark : CodePoint) : Prop :=
  isMark mark = true ∧ raw.head? = some mark ∨
    mark = '"' ∧ ∀ c, raw.head? = some c → isMark c = false

theorem ne_backslash_of_isMark {mark : CodePoint} (h : isMark mark = true) : mark ≠ '\\' := by
  rintro rfl
  cases h

theorem isMark_markOf (raw : Text) : isMark (markOf raw) = true := by
  cases raw with
  | nil => rfl
  | cons c raw =>
    rw [markOf]
    split
    · assumption
    · rfl

theorem opens_markOf (raw : Text) : Opens raw (markOf raw) := by
  cases raw with
  | nil => exact Or.inr ⟨rfl, by simp⟩
  | cons c raw =>
    rw [markOf]
    split
    · next h => exact Or.inl ⟨h, rfl⟩
    · next h => exact Or.inr ⟨rfl, by simpa using h⟩

theorem markOf_cons {mark : CodePoint} (h : isMark mark = true) (rest : Text) :
    markOf (mark :: rest) = mark := by
  rw [markOf, if_pos h]

theorem quote_eq {mark : CodePoint} (h : mark ≠ '\\') (text : Text) :
    quote [mark] text = mark :: escape mark text ++ [mark] := by
  have hescape : (text.replaceAll ['\\'] ['\\', '\\']).replaceAll [mark] ['\\', mark] =
      escape mark text := by
    rw [Text.replaceAll_singleton, Text.replaceAll_singleton, List.flatMap_assoc, escape]
    congr 1
    funext c
    by_cases hc : c = '\\'
    · simp [hc, h.symm]
    · by_cases hmark : c = mark
      · subst hmark
        simp [hc]
      · simp [hc, hmark]
  rw [quote, hescape]
  rfl

theorem decode_cons {c : CodePoint} (h : c ≠ '\\') (rest : Text) :
    decode (c :: rest) = c :: decode rest := by
  rw [decode]
  rintro d tail rfl
  exact absurd rfl h

@[simp] theorem decode_escape (mark : CodePoint) (text : Text) :
    decode (escape mark text) = text := by
  induction text with
  | nil => rfl
  | cons c text ih =>
    rw [escape, List.flatMap_cons]
    change decode (_ ++ escape mark text) = _
    by_cases hc : c = '\\' ∨ c = mark
    · rw [if_pos hc]
      simp [decode, ih]
    · rw [if_neg hc]
      simp [decode_cons (fun heq => hc (Or.inl heq)), ih]

theorem escape_eq_self {mark : CodePoint} {text : Text} (h : ∀ c ∈ text, c ≠ '\\' ∧ c ≠ mark) :
    escape mark text = text := by
  induction text with
  | nil => rfl
  | cons c text ih =>
    obtain ⟨hc, htext⟩ := List.forall_mem_cons.1 h
    rw [escape, List.flatMap_cons, if_neg (by simp [hc])]
    exact congrArg (c :: ·) (ih htext)

theorem unquote_subset (raw : Text) : unquote raw ⊆ raw := by
  unfold unquote
  split
  · next mark c rest =>
    split
    · exact fun d hd => List.mem_cons_of_mem _ (List.dropLast_subset _ hd)
    · exact List.Subset.refl _
  · exact List.Subset.refl _

theorem unquote_enclosed {mark : CodePoint} (h : isMark mark = true) (body : Text) :
    unquote (mark :: body ++ [mark]) = body := by
  cases body with
  | nil => simp [unquote, h]
  | cons c body =>
    have hlast : (c :: body ++ [mark]).getLast? = some mark := List.getLast?_concat
    have hbody : (c :: body ++ [mark]).dropLast = c :: body := List.dropLast_concat
    rw [List.cons_append] at hlast hbody
    simp [unquote, h, hlast, hbody]

/-- What is between two marks, and the text it spells: a backslash stands before each backslash and
each mark of its own kind, and may stand before other quote marks. -/
inductive Spells (mark : CodePoint) : Text → Text → Prop
  | nil : Spells mark [] []
  | plain {c : CodePoint} {body text : Text} (hbackslash : c ≠ '\\') (hmark : c ≠ mark)
      (rest : Spells mark body text) : Spells mark (c :: body) (c :: text)
  | escaped {c : CodePoint} {body text : Text} (h : c = '\\' ∨ isMark c = true)
      (rest : Spells mark body text) : Spells mark ('\\' :: c :: body) (c :: text)

def Reads (raw text : Text) : Prop :=
  ∃ mark body, isMark mark = true ∧ raw = mark :: body ++ [mark] ∧ Spells mark body text

theorem Spells.decode_eq {mark : CodePoint} {body text : Text} (h : Spells mark body text) :
    decode body = text := by
  induction h with
  | nil => rfl
  | plain hbackslash _ _ ih => rw [decode_cons hbackslash, ih]
  | escaped _ _ ih => rw [decode, ih]

theorem spells_escape {mark : CodePoint} (h : isMark mark = true) (text : Text) :
    Spells mark (escape mark text) text := by
  induction text with
  | nil => exact .nil
  | cons c text ih =>
    rw [escape, List.flatMap_cons]
    change Spells mark (_ ++ escape mark text) _
    by_cases hc : c = '\\' ∨ c = mark
    · rw [if_pos hc]
      refine .escaped (hc.imp id ?_) ih
      rintro rfl
      exact h
    · rw [if_neg hc]
      exact .plain (fun hbackslash => hc (.inl hbackslash)) (fun hmark => hc (.inr hmark)) ih

theorem reads_quote {mark : CodePoint} (h : isMark mark = true) (text : Text) :
    Reads (quote [mark] text) text :=
  ⟨mark, escape mark text, h, quote_eq (ne_backslash_of_isMark h) text, spells_escape h text⟩

theorem Reads.exists_spells {raw text : Text} (h : Reads raw text) :
    ∃ mark, Spells mark (unquote raw) text := by
  obtain ⟨mark, body, hmark, rfl, spells⟩ := h
  exact ⟨mark, (unquote_enclosed hmark body).symm ▸ spells⟩

theorem Reads.decode_eq {raw text : Text} (h : Reads raw text) : decode (unquote raw) = text := by
  obtain ⟨mark, spells⟩ := h.exists_spells
  exact spells.decode_eq

theorem Reads.unique {raw text other : Text} (h : Reads raw text) (h' : Reads raw other) :
    text = other := h.decode_eq.symm.trans h'.decode_eq

end Relink.Literal
