import Relink.Proofs.Text.Utf8

namespace Relink.Text

open Utf8 (Unencodable)

variable {text : Text} {chars : Chars} {octets : Bytes} {α : Type} {encode? : CodePoint → Option α}

theorem map_char_inj {a b : Chars} : (a.map .char : Text) = b.map .char ↔ a = b :=
  List.map_inj_right fun _ _ => CodePoint.char.inj

theorem encodeFrom_eq_ok_iff {position : Nat} {codes : List α} :
    encodeFrom encode? position text = .ok codes ↔ text.map encode? = codes.map some := by
  induction text generalizing position codes with
  | nil => cases codes <;> simp [encodeFrom]
  | cons c text ih =>
    rw [encodeFrom]
    cases hc : encode? c with
    | none => cases codes <;> simp [hc]
    | some code =>
      cases hrest : encodeFrom encode? (position + 1) text with
      | error unencodable =>
        have hnone : ∀ codes : List α, text.map encode? ≠ codes.map some := fun codes h => by
          rw [← @ih (position + 1), hrest] at h
          cases h
        cases codes <;> simp [hc, Except.map, hnone]
      | ok rest =>
        have hsome := ih.1 hrest
        cases codes with
        | nil => simp [Except.map]
        | cons first codes =>
          rw [List.map_cons, List.map_cons, hsome, hc, List.cons.injEq,
            List.map_inj_right fun _ _ => Option.some.inj]
          simp [Except.map]

theorem exists_encodeFrom_eq_ok_iff (position : Nat) :
    (∃ codes, encodeFrom encode? position text = .ok codes) ↔
      ∀ c ∈ text, (encode? c).isSome = true := by
  simp only [encodeFrom_eq_ok_iff]
  constructor
  · rintro ⟨codes, hcodes⟩ c hc
    obtain ⟨code, -, hcode⟩ := List.mem_map.1 (hcodes ▸ List.mem_map_of_mem hc)
    rw [← hcode, Option.isSome_some]
  · intro h
    refine ⟨text.filterMap encode?, ?_⟩
    induction text with
    | nil => rfl
    | cons c text ih =>
      obtain ⟨hc, htext⟩ := List.forall_mem_cons.1 h
      obtain ⟨code, hcode⟩ := Option.isSome_iff_exists.1 hc
      rw [List.map_cons, ih htext, List.filterMap_cons_some hcode, hcode, List.map_cons]

theorem pathSize_append (a b : Text) : pathSize (a ++ b) = a.pathSize + b.pathSize := by
  induction a with
  | nil => rw [List.nil_append, pathSize, Nat.zero_add]
  | cons c a ih => rw [List.cons_append, pathSize, pathSize, ih, Nat.add_assoc]

theorem chars?_eq_ok_iff : text.chars? = .ok chars ↔ text = chars.map .char := by
  rw [chars?, encodeFrom_eq_ok_iff]
  induction text generalizing chars with
  | nil => cases chars <;> simp
  | cons c text ih =>
    cases chars with
    | nil => simp
    | cons d chars => cases c <;> simp [ih, CodePoint.char?]

@[simp] theorem chars?_map_char (chars : Chars) : chars? (chars.map .char) = .ok chars :=
  chars?_eq_ok_iff.2 rfl

@[simp] theorem utf8?_map_char (chars : Chars) : utf8? (chars.map .char) = .ok chars.utf8 := by
  rw [utf8?, chars?_map_char, Except.map]

theorem utf8?_eq_ok_iff :
    text.utf8? = .ok octets ↔ ∃ chars : Chars, text = chars.map .char ∧ chars.utf8 = octets := by
  rw [utf8?]
  cases hchars : text.chars? with
  | ok chars =>
    rw [chars?_eq_ok_iff] at hchars
    subst hchars
    simp [Except.map, map_char_inj]
  | error unencodable =>
    refine iff_of_false nofun ?_
    rintro ⟨chars, rfl, -⟩
    rw [chars?_map_char] at hchars
    cases hchars

def IsEncodable (text : Text) : Prop := ∃ chars : Chars, text = chars.map .char

theorem isEncodable_map_char (chars : Chars) : IsEncodable (chars.map .char) := ⟨chars, rfl⟩

theorem isEncodable_iff : text.IsEncodable ↔ ∃ octets, text.utf8? = .ok octets := by
  simp only [utf8?_eq_ok_iff]
  constructor
  · rintro ⟨chars, rfl⟩
    exact ⟨_, chars, rfl, rfl⟩
  · rintro ⟨-, chars, rfl, -⟩
    exact ⟨chars, rfl⟩

theorem not_isEncodable_iff :
    ¬text.IsEncodable ↔ ∃ unencodable, text.utf8? = .error unencodable := by
  rw [isEncodable_iff]
  cases text.utf8? <;> simp

instance (text : Text) : Decidable text.IsEncodable :=
  match h : text.utf8? with
  | .ok octets => .isTrue (isEncodable_iff.2 ⟨octets, h⟩)
  | .error unencodable => .isFalse (not_isEncodable_iff.2 ⟨unencodable, h⟩)

end Relink.Text
