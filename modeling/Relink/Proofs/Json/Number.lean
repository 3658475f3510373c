import Mathlib.Data.List.Induction
import Mathlib.Data.List.TakeDrop
import Mathlib.Data.List.TakeWhile
import Relink.Proofs.Json.Token

namespace Relink.Json

variable {c : CodePoint} {rest : Text}

def NoDigit (rest : Text) : Prop := ∀ c ∈ rest.head?, c.isDigit = false

structure EndsNumber (rest : Text) : Prop where
  noDigit : NoDigit rest
  noPoint : ∀ c ∈ rest.head?, c ≠ '.'
  noMark : ∀ c ∈ rest.head?, c ≠ 'e' ∧ c ≠ 'E'

theorem Digit.toNat_char : ∀ digit : Digit, digit.char.toNat - '0'.toNat = digit.val := by decide

theorem Digit.eq_zero_of_char : ∀ {digit : Digit}, digit.char = '0' → digit = 0 := by decide

theorem digitsOf_map (digits : List Digit) :
    digitsOf (digits.map Digit.char) = numberOf digits := by
  induction digits using List.reverseRecOn with
  | nil => rfl
  | append_singleton digits digit ih =>
    rw [digitsOf] at ih ⊢
    rw [List.map_append, List.foldl_append, ih, numberOf, numberOf, List.reverse_append]
    simp only [List.map_cons, List.map_nil, List.foldl_cons, List.foldl_nil, List.reverse_singleton,
      List.singleton_append, Nat.ofDigits_cons, Digit.toNat_char]
    omega

theorem span_digits (digits : List Digit) (h : NoDigit rest) :
    (digits.map Digit.char ++ rest).span CodePoint.isDigit = (digits.map Digit.char, rest) := by
  have hdigits : ∀ c ∈ digits.map Digit.char, c.isDigit = true :=
    List.forall_mem_map.2 fun digit _ => digit.isDigit_char
  have hrest : rest.takeWhile CodePoint.isDigit = [] ∧ rest.dropWhile CodePoint.isDigit = rest := by
    cases rest with
    | nil => exact ⟨rfl, rfl⟩
    | cons c rest => simp [h c rfl]
  rw [List.span_eq_takeWhile_dropWhile, List.takeWhile_append_of_pos hdigits,
    List.dropWhile_append_of_pos hdigits, hrest.1, hrest.2, List.append_nil]

theorem exists_map_eq_cons {digits : List Digit} (h : digits ≠ []) :
    ∃ c front, digits.map Digit.char = c :: front ∧ c.isDigit = true := by
  obtain ⟨digit, digits, rfl⟩ := List.exists_cons_of_ne_nil h
  exact ⟨_, _, rfl, digit.isDigit_char⟩

theorem exponent_text (e : Exponent) (h : NoDigit rest) :
    exponent (e.text ++ rest) = (some e.value, rest) := by
  obtain ⟨isUpper, sign, digits, hne⟩ := e
  obtain ⟨c, front, hdigits, hc⟩ := exists_map_eq_cons hne
  have hspan := span_digits digits h
  have hvalue := digitsOf_map digits
  have hplus : c ≠ '+' := by rintro rfl; cases hc
  have hminus : c ≠ '-' := by rintro rfl; cases hc
  have hmark : ((if isUpper = true then CodePoint.char 'E' else .char 'e') == .char 'e' ||
      (if isUpper = true then CodePoint.char 'E' else .char 'e') == .char 'E') = true := by
    cases isUpper <;> rfl
  rw [hdigits] at hspan hvalue
  rw [List.cons_append] at hspan
  simp only [Exponent.text, Exponent.value, hdigits, exponent, List.cons_append, hmark, if_true]
  cases sign with
  | none =>
    dsimp only [List.cons_append]
    split
    · next heq => exact absurd (List.cons.inj heq).1 hminus
    · next heq => exact absurd (List.cons.inj heq).1 hplus
    · simp only [hspan, hvalue]
      rfl
  | some isMinus =>
    cases isMinus
    · simp only [List.cons_append, hspan, hvalue]
      rfl
    · simp only [List.cons_append, hspan, hvalue]
      rfl

theorem exponent_none (h : ∀ c ∈ rest.head?, c ≠ 'e' ∧ c ≠ 'E') : exponent rest = (none, rest) := by
  cases rest with
  | nil => rfl
  | cons c rest =>
    obtain ⟨he, hE⟩ := h c rfl
    simp [exponent, he, hE]

theorem fraction_text {digits : List Digit} (hne : digits ≠ []) (h : NoDigit rest) :
    fraction (.char '.' :: digits.map Digit.char ++ rest) = (digits.map Digit.char, rest) := by
  obtain ⟨c, front, hdigits, -⟩ := exists_map_eq_cons hne
  have hspan := span_digits digits h
  rw [hdigits] at hspan ⊢
  simp only [fraction, List.cons_append] at hspan ⊢
  rw [hspan]

theorem fraction_none (h : ∀ c ∈ rest.head?, c ≠ '.') : fraction rest = ([], rest) := by
  cases rest with
  | nil => rfl
  | cons c rest =>
    unfold fraction
    split
    · next heq => exact absurd (List.cons.inj heq).1 (h c rfl)
    · rfl

theorem wholePart_text {whole : List Digit} (hne : whole ≠ [])
    (hzero : whole.head? = some 0 → whole = [0]) (h : NoDigit rest) :
    wholePart (whole.map Digit.char ++ rest) = some (whole.map Digit.char, rest) := by
  obtain ⟨digit, digits, rfl⟩ := List.exists_cons_of_ne_nil hne
  have hspan := span_digits (digit :: digits) h
  by_cases hdigit : digit = 0
  · subst hdigit
    rw [hzero rfl]
    rfl
  · have hchar : digit.char ≠ '0' := mt Digit.eq_zero_of_char hdigit
    rw [List.map_cons, List.cons_append] at hspan ⊢
    unfold wholePart
    split
    · next heq => exact absurd (List.cons.inj heq).1 hchar
    · next heq =>
      obtain ⟨rfl, rfl⟩ := List.cons.inj heq
      rw [if_pos digit.isDigit_char, hspan]
    · next heq => cases heq

theorem exponent_getD (e : Option Exponent) (h : EndsNumber rest) :
    exponent ((e.map Exponent.text).getD [] ++ rest) = (e.map Exponent.value, rest) := by
  cases e with
  | none => exact exponent_none h.noMark
  | some e => exact exponent_text e h.noDigit

theorem head_exponent {e : Option Exponent} (h : EndsNumber rest) :
    ∀ c ∈ ((e.map Exponent.text).getD [] ++ rest).head?, c.isDigit = false ∧ c ≠ '.' := by
  cases e with
  | none => exact fun c hc => ⟨h.noDigit c hc, h.noPoint c hc⟩
  | some e =>
    intro c hc
    obtain rfl : (if e.isUpper then .char 'E' else .char 'e') = c := Option.some.inj hc
    split <;> decide

theorem fraction_ite (decimals : List Digit)
    (h : ∀ c ∈ rest.head?, c.isDigit = false ∧ c ≠ '.') :
    fraction ((if decimals = [] then [] else .char '.' :: decimals.map Digit.char) ++ rest) =
      (decimals.map Digit.char, rest) := by
  split
  · next hnil =>
    subst hnil
    exact fraction_none fun c hc => (h c hc).2
  · next hne => exact fraction_text hne fun c hc => (h c hc).1

theorem noDigit_ite (decimals : List Digit) (h : NoDigit rest) :
    NoDigit ((if decimals = [] then [] else .char '.' :: decimals.map Digit.char) ++ rest) := by
  split
  · exact h
  · intro c hc
    obtain rfl : '.' = c := Option.some.inj hc
    rfl

theorem readUnsigned?_text (numeral : Numeral) (h : EndsNumber rest) :
    readUnsigned? numeral.isNegative (numeral.unsigned ++ rest) = some (numeral.value, rest) := by
  obtain ⟨isNegative, whole, hne, hzero, decimals, e⟩ := numeral
  have hhead := head_exponent (e := e) h
  have hwhole := wholePart_text hne hzero (noDigit_ite decimals fun c hc => (hhead c hc).1)
  have hdigits := digitsOf_map (whole ++ decimals)
  rw [List.map_append] at hdigits
  simp only [Numeral.unsigned, readUnsigned?, List.append_assoc, hwhole, Option.map_some,
    fraction_ite decimals hhead, exponent_getD e h, hdigits]
  cases decimals <;> cases e <;> simp [Numeral.value]

theorem readNumber?_text (numeral : Numeral) (h : EndsNumber rest) :
    readNumber? (numeral.text ++ rest) = some (numeral.value, rest) := by
  have hread := readUnsigned?_text numeral h
  obtain ⟨c, front, hmap, hc⟩ := exists_map_eq_cons numeral.whole_ne
  cases hnegative : numeral.isNegative with
  | true =>
    rw [hnegative] at hread
    rw [Numeral.text, if_pos hnegative]
    exact hread
  | false =>
    rw [hnegative] at hread
    obtain ⟨tail, hunsigned⟩ : ∃ tail, numeral.unsigned ++ rest = c :: tail := by
      simp [Numeral.unsigned, hmap]
    rw [hunsigned] at hread
    rw [Numeral.text, if_neg (by simp [hnegative]), List.nil_append, hunsigned]
    unfold readNumber?
    split
    · next heq =>
      obtain ⟨rfl, -⟩ := List.cons.inj heq
      cases hc
    · exact hread

end Relink.Json
