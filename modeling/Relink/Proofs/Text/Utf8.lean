import Mathlib.Tactic.SplitIfs
import Relink.Text.Utf8

namespace Relink.Utf8

theorem isContinuation_iff (b : UInt8) :
    isContinuation b = true ↔ 0x80 ≤ b.toNat ∧ b.toNat < 0xc0 := by
  simp [isContinuation, UInt8.le_iff_toNat_le, UInt8.lt_iff_toNat_lt]

theorem maySecond_iff (lead b : UInt8) :
    maySecond lead b = true ↔ 0x80 ≤ b.toNat ∧ b.toNat < 0xc0 ∧
      (lead.toNat = 0xe0 → 0xa0 ≤ b.toNat) ∧ (lead.toNat = 0xed → b.toNat < 0xa0) ∧
      (lead.toNat = 0xf0 → 0x90 ≤ b.toNat) ∧ (lead.toNat = 0xf4 → b.toNat < 0x90) := by
  simp only [maySecond, Bool.and_eq_true, isContinuation_iff, ← UInt8.toNat_inj]
  simp only [UInt8.reduceToNat]
  split_ifs <;> simp [UInt8.le_iff_toNat_le, UInt8.lt_iff_toNat_lt] <;> omega

section Lead

variable {b b₁ b₂ b₃ : UInt8} (rest : Bytes)

theorem unitAt_one (hb : b.toNat < 0x80) : unitAt b rest = .char (.ofNat b.toNat) := by
  have h80 : b < 0x80 := hb
  simp [unitAt, h80]

theorem lead_bounds (hb : 0xc2 ≤ b.toNat ∧ b.toNat < 0xf5) : ¬b < 0x80 ∧ ¬b < 0xc2 ∧ ¬0xf5 ≤ b := by
  rw [UInt8.lt_iff_toNat_lt, UInt8.lt_iff_toNat_lt, UInt8.le_iff_toNat_le]
  simp
  omega

theorem not_lt_lead {bound : UInt8} (h : bound.toNat ≤ b.toNat) : ¬b < bound := by
  rw [UInt8.lt_iff_toNat_lt]
  exact Nat.not_lt.2 h

theorem unitAt_two (hb : 0xc2 ≤ b.toNat ∧ b.toNat < 0xe0) (h₁ : maySecond b b₁ = true) :
    unitAt b (b₁ :: rest) = ofTwo b b₁ := by
  have lead : ¬b < 0x80 ∧ ¬b < 0xc2 ∧ ¬0xf5 ≤ b := lead_bounds (by omega)
  have he0 : b < 0xe0 := hb.2
  simp [unitAt, lead, h₁, he0]

theorem unitAt_three (hb : 0xe0 ≤ b.toNat ∧ b.toNat < 0xf0) (h₁ : maySecond b b₁ = true)
    (h₂ : isContinuation b₂ = true) : unitAt b (b₁ :: b₂ :: rest) = ofThree b b₁ b₂ := by
  have lead : ¬b < 0x80 ∧ ¬b < 0xc2 ∧ ¬0xf5 ≤ b := lead_bounds (by omega)
  have he0 : ¬b < 0xe0 := not_lt_lead hb.1
  have hf0 : b < 0xf0 := hb.2
  simp [unitAt, lead, h₁, he0, h₂, hf0]

theorem unitAt_four (hb : 0xf0 ≤ b.toNat ∧ b.toNat < 0xf5) (h₁ : maySecond b b₁ = true)
    (h₂ : isContinuation b₂ = true) (h₃ : isContinuation b₃ = true) :
    unitAt b (b₁ :: b₂ :: b₃ :: rest) = ofFour b b₁ b₂ b₃ := by
  have lead : ¬b < 0x80 ∧ ¬b < 0xc2 ∧ ¬0xf5 ≤ b := lead_bounds (by omega)
  have he0 : ¬b < 0xe0 := not_lt_lead (Nat.le_trans (by decide) hb.1)
  have hf0 : ¬b < 0xf0 := not_lt_lead hb.1
  simp [unitAt, lead, h₁, he0, h₂, hf0, h₃]

end Lead

theorem unitAt_utf8EncodeChar (c : Char) {b : UInt8} {tail : Bytes} (rest : Bytes)
    (h : String.utf8EncodeChar c = b :: tail) : unitAt b (tail ++ rest) = .char c := by
  have valid : c.val.toNat < 0xd800 ∨ 0xdfff < c.val.toNat ∧ c.val.toNat < 0x110000 := c.valid
  have hc : c.val.toNat = c.toNat := rfl
  have ofNat {n : Nat} (hn : n = c.toNat) : Char.ofNat n = c := by
    rw [hn]
    exact Char.ofNat_toNat c
  revert h
  -- the encoding has one form for each length
  fun_cases String.utf8EncodeChar c with
  | case1 v h₀ =>
    rintro ⟨⟩
    have hv : c.val.toNat = v := rfl
    rw [unitAt_one _ (by simp; omega)]
    simp only [Unit.char.injEq]
    apply ofNat
    simp; omega
  | case2 v h₀ h₁ =>
    rintro ⟨⟩
    have hv : c.val.toNat = v := rfl
    simp only [List.cons_append, List.nil_append]
    rw [unitAt_two _ (by simp; omega) (by rw [maySecond_iff]; simp; omega), ofTwo]
    simp only [Unit.char.injEq]
    apply ofNat
    simp [low]; omega
  | case3 v h₀ h₁ h₂ =>
    rintro ⟨⟩
    have hv : c.val.toNat = v := rfl
    simp only [List.cons_append, List.nil_append]
    rw [unitAt_three _ (by simp; omega) (by rw [maySecond_iff]; simp; omega)
      (by rw [isContinuation_iff]; simp; omega), ofThree]
    simp only [Unit.char.injEq]
    apply ofNat
    simp [low]; omega
  | case4 v h₀ h₁ h₂ =>
    rintro ⟨⟩
    have hv : c.val.toNat = v := rfl
    simp only [List.cons_append, List.nil_append]
    rw [unitAt_four _ (by simp; omega) (by rw [maySecond_iff]; simp; omega)
      (by rw [isContinuation_iff]; simp; omega) (by rw [isContinuation_iff]; simp; omega), ofFour]
    simp only [Unit.char.injEq]
    apply ofNat
    simp [low]; omega

theorem unitsFrom_skip (octets rest : Bytes) (position : Nat) :
    unitsFrom octets.length position (octets ++ rest) =
      unitsFrom 0 (position + octets.length) rest := by
  induction octets generalizing position with
  | nil => rfl
  | cons b octets ih =>
    simp only [List.length_cons, List.cons_append, unitsFrom]
    rw [ih]
    congr 1
    omega

theorem unitsFrom_utf8EncodeChar (c : Char) (rest : Bytes) (position : Nat) :
    unitsFrom 0 position (String.utf8EncodeChar c ++ rest) =
      (position, .char c) :: unitsFrom 0 (position + c.utf8Size) rest := by
  cases h : String.utf8EncodeChar c with
  | nil => exact absurd h String.utf8EncodeChar_ne_nil
  | cons b tail =>
    have size : tail.length + 1 = c.utf8Size := by
      rw [← String.length_utf8EncodeChar, h, List.length_cons]
    simp only [List.cons_append, unitsFrom]
    rw [unitAt_utf8EncodeChar c rest h, Unit.length, ← size, Nat.add_sub_cancel, unitsFrom_skip]
    congr 2
    omega

theorem map_units_utf8 (text : Chars) (position : Nat) :
    (unitsFrom 0 position text.utf8).map (·.2) = text.map .char := by
  induction text generalizing position with
  | nil => rfl
  | cons c text ih =>
    simp only [Chars.utf8, List.flatMap_cons] at ih ⊢
    rw [unitsFrom_utf8EncodeChar, List.map_cons, ih, List.map_cons]

@[simp] theorem decode_utf8 (text : Chars) : decode text.utf8 = .ok text := by
  have h := map_units_utf8 text 0
  unfold decode units
  generalize unitsFrom 0 0 text.utf8 = units at h
  induction text generalizing units with
  | nil =>
    rw [List.map_eq_nil_iff.1 h]
    rfl
  | cons c text ih =>
    cases units with
    | nil => cases h
    | cons head units =>
      simp only [List.map_cons, List.cons.injEq] at h
      obtain ⟨position, unit⟩ := head
      obtain ⟨rfl, h⟩ := h
      rw [List.mapM_cons, ih units h]
      rfl

@[simp] theorem decodeLossy_utf8 (text : Chars) : decodeLossy text.utf8 = text := by
  have h := map_units_utf8 text 0
  unfold decodeLossy units
  generalize unitsFrom 0 0 text.utf8 = units at h
  induction text generalizing units with
  | nil => rw [List.map_eq_nil_iff.1 h, List.map_nil]
  | cons c text ih =>
    obtain ⟨⟨position, unit⟩, units, rfl, rfl, hunits⟩ := List.map_eq_cons_iff.1 h
    rw [List.map_cons, ih units hunits]

@[simp] theorem utf8_append (a b : Chars) : (a ++ b).utf8 = a.utf8 ++ b.utf8 :=
  List.flatMap_append

theorem utf8_injective : Function.Injective Chars.utf8 := by
  intro a b h
  simpa using congrArg decode h

@[simp] theorem utf8_eq_nil {text : Chars} : text.utf8 = [] ↔ text = [] :=
  ⟨fun h => utf8_injective h, fun h => h ▸ rfl⟩

/-- A place in a source in front of a character or at the end. -/
def IsBoundary (source : Bytes) (offset : Nat) : Prop :=
  ∃ before after : Chars, source = before.utf8 ++ after.utf8 ∧ offset = before.utf8.length

theorem IsBoundary.zero (text : Chars) : IsBoundary text.utf8 0 := ⟨[], text, rfl, rfl⟩

theorem IsBoundary.le_length {source : Bytes} {offset : Nat} (h : IsBoundary source offset) :
    offset ≤ source.length := by
  obtain ⟨before, after, rfl, rfl⟩ := h
  simp

theorem IsBoundary.drop {source : Bytes} {offset : Nat} (h : IsBoundary source offset) :
    ∃ text : Chars, source.drop offset = text.utf8 := by
  obtain ⟨before, after, rfl, rfl⟩ := h
  exact ⟨after, List.drop_left⟩

theorem IsBoundary.slice {source : Bytes} {start stop : Nat} (hstart : IsBoundary source start)
    (hstop : IsBoundary source stop) (h : start ≤ stop) :
    ∃ text : Chars, (source.drop start).take (stop - start) = text.utf8 := by
  obtain ⟨a, a', rfl, rfl⟩ := hstart
  obtain ⟨b, b', heq, rfl⟩ := hstop
  have texts : a ++ a' = b ++ b' := by
    apply utf8_injective
    simpa using heq
  rcases List.append_eq_append_iff.1 texts with ⟨mid, rfl, rfl⟩ | ⟨mid, rfl, rfl⟩
  · exact ⟨mid, by simp⟩
  · have : mid = [] := by
      simp only [utf8_append, List.length_append] at h
      exact utf8_eq_nil.1 (List.eq_nil_of_length_eq_zero (by omega))
    exact ⟨[], by simp [this]⟩

end Relink.Utf8
