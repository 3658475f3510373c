import Relink.Proofs.Except
import Relink.Proofs.Text.Utf8

namespace Relink.Utf8

open String

theorem toNat_ofNat {n : Nat} (h : n < 0xd800 ∨ 0xdfff < n ∧ n < 0x110000) :
    (Char.ofNat n).val.toNat = n := by
  have valid : n.isValidChar := h
  rw [Char.ofNat, dif_pos valid]
  rfl

theorem ofNat_eq {n : Nat} {b : UInt8} (h : n = b.toNat) : UInt8.ofNat n = b := by
  rw [h, UInt8.ofNat_toNat]

section Lead

variable {b b₁ b₂ b₃ : UInt8}

theorem utf8EncodeChar_one (hb : b.toNat < 0x80) : utf8EncodeChar (.ofNat b.toNat) = [b] := by
  have hc := toNat_ofNat (n := b.toNat) (by omega)
  simp only [utf8EncodeChar, hc]
  rw [if_pos (by omega), ofNat_eq rfl]

theorem utf8EncodeChar_two (hb : 0xc2 ≤ b.toNat ∧ b.toNat < 0xe0) (h₁ : maySecond b b₁ = true) :
    utf8EncodeChar (.ofNat (b.toNat % 32 * 64 + low b₁)) = [b, b₁] := by
  rw [maySecond_iff] at h₁
  unfold low
  have hc := toNat_ofNat (n := b.toNat % 32 * 64 + b₁.toNat % 64) (by omega)
  simp only [utf8EncodeChar, hc]
  rw [if_neg (by omega), if_pos (by omega), ofNat_eq (b := b) (by omega),
    ofNat_eq (b := b₁) (by omega)]

theorem utf8EncodeChar_three (hb : 0xe0 ≤ b.toNat ∧ b.toNat < 0xf0) (h₁ : maySecond b b₁ = true)
    (h₂ : isContinuation b₂ = true) :
    utf8EncodeChar (.ofNat (b.toNat % 16 * 4096 + low b₁ * 64 + low b₂)) = [b, b₁, b₂] := by
  rw [maySecond_iff] at h₁
  rw [isContinuation_iff] at h₂
  unfold low
  have hc := toNat_ofNat (n := b.toNat % 16 * 4096 + b₁.toNat % 64 * 64 + b₂.toNat % 64) (by omega)
  simp only [utf8EncodeChar, hc]
  rw [if_neg (by omega), if_neg (by omega), if_pos (by omega), ofNat_eq (b := b) (by omega),
    ofNat_eq (b := b₁) (by omega), ofNat_eq (b := b₂) (by omega)]

theorem utf8EncodeChar_four (hb : 0xf0 ≤ b.toNat ∧ b.toNat < 0xf5) (h₁ : maySecond b b₁ = true)
    (h₂ : isContinuation b₂ = true) (h₃ : isContinuation b₃ = true) :
    utf8EncodeChar (.ofNat (b.toNat % 8 * 262144 + low b₁ * 4096 + low b₂ * 64 + low b₃)) =
      [b, b₁, b₂, b₃] := by
  rw [maySecond_iff] at h₁
  rw [isContinuation_iff] at h₂ h₃
  unfold low
  have hc := toNat_ofNat (n := b.toNat % 8 * 262144 + b₁.toNat % 64 * 4096 + b₂.toNat % 64 * 64 +
    b₃.toNat % 64) (by omega)
  simp only [utf8EncodeChar, hc]
  rw [if_neg (by omega), if_neg (by omega), if_neg (by omega), ofNat_eq (b := b) (by omega),
    ofNat_eq (b := b₁) (by omega), ofNat_eq (b := b₂) (by omega), ofNat_eq (b := b₃) (by omega)]

end Lead

theorem exists_utf8EncodeChar_of_unitAt {b : UInt8} {rest : Bytes} {c : Char}
    (h : unitAt b rest = .char c) :
    ∃ tail rest', rest = tail ++ rest' ∧ utf8EncodeChar c = b :: tail := by
  unfold unitAt at h
  dsimp only at h
  split at h
  · next hb =>
    cases h
    exact ⟨[], rest, rfl, utf8EncodeChar_one hb⟩
  next hone =>
  split at h
  · cases h
  next hlead =>
  have hb : 0xc2 ≤ b.toNat ∧ b.toNat < 0xf5 := by
    simp [UInt8.le_iff_toNat_le, UInt8.lt_iff_toNat_lt] at hlead
    omega
  split at h
  · cases h
  next b₁ rest =>
  split at h
  · cases h
  next h₁ =>
  replace h₁ : maySecond b b₁ = true := by simpa using h₁
  split at h
  · next htwo =>
    cases h
    exact ⟨[b₁], rest, rfl, utf8EncodeChar_two ⟨hb.1, htwo⟩ h₁⟩
  next htwo =>
  have hb' : 0xe0 ≤ b.toNat := Nat.not_lt.1 htwo
  split at h
  · cases h
  next b₂ rest =>
  split at h
  · cases h
  next h₂ =>
  replace h₂ : isContinuation b₂ = true := by simpa using h₂
  split at h
  · next hthree =>
    cases h
    exact ⟨[b₁, b₂], rest, rfl, utf8EncodeChar_three ⟨hb', hthree⟩ h₁ h₂⟩
  next hthree =>
  have hb'' : 0xf0 ≤ b.toNat := Nat.not_lt.1 hthree
  split at h
  · cases h
  next b₃ rest =>
  split at h
  · cases h
  next h₃ =>
  replace h₃ : isContinuation b₃ = true := by simpa using h₃
  cases h
  exact ⟨[b₁, b₂, b₃], rest, rfl, utf8EncodeChar_four ⟨hb'', hb.2⟩ h₁ h₂ h₃⟩

theorem eq_utf8_of_units {octets : Bytes} {position : Nat} {text : Chars}
    (h : (unitsFrom 0 position octets).map (·.2) = text.map .char) : octets = text.utf8 := by
  induction text generalizing octets position with
  | nil =>
    cases octets with
    | nil => rfl
    | cons b rest => cases h
  | cons c text ih =>
    cases octets with
    | nil => cases h
    | cons b rest =>
      simp only [unitsFrom, List.map_cons, List.cons.injEq] at h
      obtain ⟨hunit, hrest⟩ := h
      obtain ⟨tail, rest', rfl, hencode⟩ := exists_utf8EncodeChar_of_unitAt hunit
      have size : (Unit.length (.char c)) - 1 = tail.length := by
        rw [Unit.length, ← String.length_utf8EncodeChar, hencode, List.length_cons,
          Nat.add_sub_cancel]
      rw [hunit, size, unitsFrom_skip] at hrest
      change _ = utf8EncodeChar c ++ Chars.utf8 text
      rw [ih hrest, hencode]
      rfl

theorem eq_utf8_of_decode {octets : Bytes} {text : Chars} (h : decode octets = .ok text) :
    octets = text.utf8 := by
  apply @eq_utf8_of_units octets 0 text
  unfold decode units at h
  generalize unitsFrom 0 0 octets = units at h ⊢
  induction units generalizing text with
  | nil =>
    cases h
    rfl
  | cons head units ih =>
    obtain ⟨start, unit⟩ := head
    rw [List.mapM_cons] at h
    obtain ⟨c, hc, h⟩ := bind_eq_ok h
    obtain ⟨rest, hrest, h⟩ := bind_eq_ok h
    cases h
    cases unit with
    | char c' =>
      cases hc
      rw [List.map_cons, List.map_cons, ih hrest]
    | bad fault octet length => cases hc

end Relink.Utf8
