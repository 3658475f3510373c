import Mathlib.Data.List.TakeWhile
import Relink.Text

namespace Relink.Text

theorem splitAfterLast_append {p : CodePoint → Bool} {a b : Text}
    (ha : ∀ c, a.getLast? = some c → p c = true) (hb : ∀ c ∈ b, p c = false) :
    splitAfterLast p (a ++ b) = (a, b) := by
  have hskip : ∀ c ∈ b.reverse, (!p c) = true := by simpa using hb
  have hstop : a.reverse.takeWhile (!p ·) = [] ∧ a.reverse.dropWhile (!p ·) = a.reverse := by
    rw [← List.head?_reverse] at ha
    cases h : a.reverse with
    | nil => exact ⟨rfl, rfl⟩
    | cons c rest =>
      have hc : p c = true := ha c (by rw [h]; rfl)
      simp [hc]
  simp only [splitAfterLast]
  rw [List.reverse_append, List.dropWhile_append_of_pos hskip, List.takeWhile_append_of_pos hskip,
    hstop.1, hstop.2]
  simp

theorem splitAfterLast_spec (p : CodePoint → Bool) (text : Text) :
    text = (splitAfterLast p text).1 ++ (splitAfterLast p text).2 ∧
    (∀ c, (splitAfterLast p text).1.getLast? = some c → p c = true) ∧
    ∀ c ∈ (splitAfterLast p text).2, p c = false := by
  unfold splitAfterLast
  refine ⟨?_, ?_, ?_⟩
  · rw [← List.reverse_append, List.takeWhile_append_dropWhile, List.reverse_reverse]
  · intro c hc
    rw [List.getLast?_reverse] at hc
    have h := List.head?_dropWhile_not (!p ·) text.reverse
    rw [hc] at h
    simpa using h
  · intro c hc
    simpa using List.mem_takeWhile_imp (List.mem_reverse.1 hc)

theorem splitAfterLast_cut {a : CodePoint} {before after : Text} (h : a ∉ after) :
    splitAfterLast (· == a) (before ++ a :: after) = (before ++ [a], after) := by
  rw [List.append_cons]
  refine splitAfterLast_append (by simp) ?_
  intro c hc
  simpa using fun heq : c = a => h (heq ▸ hc)

theorem cut_at_last_unique {a : CodePoint} {before before' after after' : Text} (h : a ∉ after)
    (h' : a ∉ after') (heq : before ++ a :: after = before' ++ a :: after') :
    before = before' ∧ after = after' := by
  have hsplit := congrArg (splitAfterLast (· == a)) heq
  rw [splitAfterLast_cut h, splitAfterLast_cut h'] at hsplit
  obtain ⟨hbefore, hafter⟩ := Prod.mk.inj hsplit
  exact ⟨List.append_cancel_right hbefore, hafter⟩

theorem exists_cut_at_last {a : CodePoint} {text : Text} (h : a ∈ text) :
    ∃ before after, text = before ++ a :: after ∧ a ∉ after := by
  obtain ⟨htext, hlast, hafter⟩ := splitAfterLast_spec (· == a) text
  generalize splitAfterLast (· == a) text = parts at htext hlast hafter
  obtain ⟨front, after⟩ := parts
  have hnot : a ∉ after := fun ha => by simpa using hafter a ha
  obtain rfl | ⟨before, c, rfl⟩ := List.eq_nil_or_concat front
  · rw [htext] at h
    exact absurd h hnot
  · obtain rfl : c = a := by simpa using hlast c (by simp)
    exact ⟨before, after, by simpa using htext, hnot⟩

theorem trimRight_append {p : CodePoint → Bool} {a b : Text}
    (ha : ∀ c, a.getLast? = some c → p c = false) (hb : ∀ c ∈ b, p c = true) :
    trimRight p (a ++ b) = a := by
  have hskip : ∀ c ∈ b.reverse, p c = true := by simpa using hb
  have hstop : a.reverse.dropWhile p = a.reverse := by
    rw [← List.head?_reverse] at ha
    cases h : a.reverse with
    | nil => rfl
    | cons c rest =>
      have hc : p c = false := ha c (by rw [h]; rfl)
      simp [hc]
  rw [trimRight, List.reverse_append, List.dropWhile_append_of_pos hskip, hstop,
    List.reverse_reverse]

theorem trimRight_subset (p : CodePoint → Bool) (text : Text) : trimRight p text ⊆ text := by
  intro c hc
  rw [trimRight, List.mem_reverse] at hc
  exact List.mem_reverse.1 ((List.dropWhile_sublist p).mem hc)

theorem splitAfterLast_map {p q : CodePoint → Bool} {f : CodePoint → CodePoint} {text : Text}
    (h : ∀ c ∈ text, p (f c) = q c) : splitAfterLast p (text.map f) =
      ((splitAfterLast q text).1.map f, (splitAfterLast q text).2.map f) := by
  obtain ⟨htext, hlast, hrest⟩ := splitAfterLast_spec q text
  generalize splitAfterLast q text = parts at htext hlast hrest
  obtain ⟨front, rest⟩ := parts
  subst htext
  rw [List.map_append]
  refine splitAfterLast_append ?_ ?_
  · intro c hc
    rw [List.getLast?_map, Option.map_eq_some_iff] at hc
    obtain ⟨c, hc, rfl⟩ := hc
    rw [h c (List.mem_append_left _ (List.mem_of_getLast? hc))]
    exact hlast c hc
  · intro c hc
    obtain ⟨c, hmem, rfl⟩ := List.mem_map.1 hc
    rw [h c (List.mem_append_right _ hmem)]
    exact hrest c hmem

theorem trimRight_map {p q : CodePoint → Bool} {f : CodePoint → CodePoint} {text : Text}
    (h : ∀ c ∈ text, p (f c) = q c) : trimRight p (text.map f) = (trimRight q text).map f := by
  have hdrop : ∀ rest : Text, (∀ c ∈ rest, p (f c) = q c) →
      (rest.map f).dropWhile p = (rest.dropWhile q).map f := by
    intro rest hrest
    induction rest with
    | nil => rfl
    | cons c rest ih =>
      obtain ⟨hc, hrest⟩ := List.forall_mem_cons.1 hrest
      rw [List.map_cons, List.dropWhile_cons, List.dropWhile_cons, hc, ih hrest]
      split <;> rfl
  rw [trimRight, trimRight, ← List.map_reverse, hdrop _ (by simpa using h), List.map_reverse]

theorem not_mem_of_mem_splitOn {a : CodePoint} {part text : Text} (h : part ∈ text.splitOn a) :
    a ∉ part := by
  induction text generalizing part with
  | nil =>
    obtain rfl : part = [] := by simpa using h
    exact List.not_mem_nil
  | cons c text ih =>
    rw [List.splitOn_cons_eq_if_modifyHead] at h
    split at h
    · obtain rfl | h := List.mem_cons.1 h
      · exact List.not_mem_nil
      · exact ih h
    · next hc =>
      cases hparts : text.splitOn a with
      | nil => exact absurd hparts (List.splitOn_ne_nil a text)
      | cons first rest =>
        rw [hparts] at h ih
        obtain rfl | h := List.mem_cons.1 h
        · have hca : a ≠ c := fun heq => hc (by simp [heq])
          simp only [List.mem_cons, not_or]
          exact ⟨hca, ih List.mem_cons_self⟩
        · exact ih (List.mem_cons_of_mem _ h)

theorem mem_of_mem_joinWith {separator : Text} {parts : List Text} {c : CodePoint}
    (h : c ∈ joinWith separator parts) : c ∈ separator ∨ ∃ part ∈ parts, c ∈ part := by
  unfold joinWith at h
  induction parts with
  | nil => cases h
  | cons first rest ih =>
    cases rest with
    | nil =>
      rw [List.intercalate_singleton] at h
      exact Or.inr ⟨first, List.mem_cons_self, h⟩
    | cons second rest =>
      rw [List.intercalate_cons_cons, List.append_assoc, List.mem_append, List.mem_append] at h
      obtain h | h | h := h
      · exact Or.inr ⟨first, List.mem_cons_self, h⟩
      · exact Or.inl h
      · obtain h | ⟨part, hpart, h⟩ := ih h
        · exact Or.inl h
        · exact Or.inr ⟨part, List.mem_cons_of_mem _ hpart, h⟩

theorem map_joinWith (f : CodePoint → CodePoint) (separator : Text) (parts : List Text) :
    (joinWith separator parts).map f = joinWith (separator.map f) (parts.map (·.map f)) := by
  unfold joinWith
  induction parts with
  | nil => rfl
  | cons first rest ih =>
    cases rest with
    | nil => simp
    | cons second rest =>
      simp only [List.map_cons, List.intercalate_cons_cons, List.map_append] at ih ⊢
      rw [ih]

theorem mem_of_mem_splitOn {a c : CodePoint} {part text : Text} (h : part ∈ text.splitOn a)
    (hc : c ∈ part) : c ∈ text := by
  induction text generalizing part with
  | nil =>
    obtain rfl : part = [] := by simpa using h
    cases hc
  | cons d text ih =>
    rw [List.splitOn_cons_eq_if_modifyHead] at h
    split at h
    · obtain rfl | h := List.mem_cons.1 h
      · cases hc
      · exact List.mem_cons_of_mem _ (ih h hc)
    · cases hparts : text.splitOn a with
      | nil => exact absurd hparts (List.splitOn_ne_nil a text)
      | cons first rest =>
        rw [hparts] at h ih
        obtain rfl | h := List.mem_cons.1 h
        · obtain rfl | hc := List.mem_cons.1 hc
          · exact List.mem_cons_self
          · exact List.mem_cons_of_mem _ (ih List.mem_cons_self hc)
        · exact List.mem_cons_of_mem _ (ih (List.mem_cons_of_mem _ h) hc)

end Relink.Text
