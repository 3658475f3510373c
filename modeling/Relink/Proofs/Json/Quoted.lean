import Relink.Proofs.Json.Token

namespace Relink.Json

variable {fuel : Nat} {opening text tail rest : Text} {c : CodePoint}

theorem hexValue?_char (digit : HexDigit) : hexValue? digit.char = some digit.value.val := by
  obtain ⟨value, isUpper⟩ := digit
  revert value isUpper
  decide

theorem unitCode?_digits (unit : CodeUnit) (c : CodePoint) (rest : Text) :
    unitCode? (unit.digits ++ c :: rest) = some (unit.code, c :: rest) := by
  have hcode :
      ((unit.first.value.val * 16 + unit.second.value.val) * 16 + unit.third.value.val) * 16 +
        unit.fourth.value.val = unit.code := by
    simp only [CodeUnit.code, Nat.ofDigits_cons, Nat.ofDigits_nil]
    omega
  rw [← hcode]
  simp [CodeUnit.digits, unitCode?, hexValue?_char]

theorem isHighHalf_code (unit : CodeUnit) : isHighHalf unit.code = decide unit.IsHigh := by
  rw [isHighHalf, ← Bool.decide_and]
  rfl

theorem isLowHalf_code (unit : CodeUnit) : isLowHalf unit.code = decide unit.IsLow := by
  rw [isLowHalf, ← Bool.decide_and]
  rfl

theorem unicodeEscape_pair {high low : CodeUnit} (hhigh : high.IsHigh) (hlow : low.IsLow)
    (atMark : Text) : unicodeEscape atMark
      (high.digits ++ .char '\\' :: .char 'u' :: (low.digits ++ c :: rest)) =
      .ok (high.pair low, c :: rest) := by
  simp [unicodeEscape, unitCode?_digits, isHighHalf_code, isLowHalf_code, hhigh, hlow,
    CodeUnit.pair]

theorem unicodeEscape_single (unit : CodeUnit) (atMark : Text)
    (h : unit.IsHigh → ∀ more, c :: rest = .char '\\' :: .char 'u' :: more →
      ∃ code rest', unitCode? more = some (code, rest') ∧ isLowHalf code = false) :
    unicodeEscape atMark (unit.digits ++ c :: rest) = .ok (unit.char, c :: rest) := by
  simp only [unicodeEscape, unitCode?_digits, isHighHalf_code, decide_eq_true_eq]
  by_cases hhigh : unit.IsHigh
  · rw [if_pos hhigh, CodeUnit.char]
    split
    · next more heq =>
      obtain ⟨code, rest', hcode, hlow⟩ := h hhigh more heq
      simp [hcode, hlow]
    · rfl
  · rw [if_neg hhigh, CodeUnit.char]

theorem stringTail_plain (c : PlainChar) (h : stringTail opening fuel text = .ok (tail, rest)) :
    stringTail opening (fuel + 1) (c.char :: text) = .ok (c.char :: tail, rest) := by
  have hcontrol : ¬c.char.toNat < 0x20 := Nat.not_lt.2 c.isPrintable
  simp [stringTail, c.ne_quote, c.ne_backslash, hcontrol, h]

theorem stringTail_escape (e : Escape) (h : stringTail opening fuel text = .ok (tail, rest)) :
    stringTail opening (fuel + 1) ('\\' :: e.mark :: text) = .ok (e.char :: tail, rest) := by
  cases e <;> simp [stringTail, Escape.mark, Escape.char, simpleEscape?, h]

theorem stringTail_unit {digits : Text}
    (hunit : unicodeEscape ('u' :: digits) digits = .ok (c, text))
    (h : stringTail opening fuel text = .ok (tail, rest)) :
    stringTail opening (fuel + 1) ('\\' :: 'u' :: digits) = .ok (c :: tail, rest) := by
  simp only [stringTail, hunit]
  rw [if_neg (by decide), if_neg (by decide), if_pos (by decide), if_pos (by decide)]
  exact congrArg (Except.map fun read => (c :: read.1, read.2)) h

theorem exists_flatMap_eq (pieces : List Piece) (rest : Text) :
    ∃ c tail, pieces.flatMap Piece.text ++ .char '"' :: rest = c :: tail := by
  cases pieces with
  | nil => exact ⟨_, _, rfl⟩
  | cons piece pieces => cases piece <;> exact ⟨_, _, rfl⟩

theorem exists_unit_of_flatMap_eq {pieces : List Piece} {more : Text}
    (h : pieces.flatMap Piece.text ++ .char '"' :: rest = .char '\\' :: .char 'u' :: more) :
    ∃ unit others, pieces = .unit unit :: others := by
  cases pieces with
  | nil => cases h
  | cons piece pieces =>
    cases piece with
    | plain c => exact absurd (List.cons.inj h).1 c.ne_backslash
    | escape e => cases e <;> cases h
    | unit u => exact ⟨u, pieces, rfl⟩

theorem stringTail_pieces (opening : Text) (pieces : List Piece) (rest : Text) (fuel : Nat)
    (h : pieces.length < fuel) :
    stringTail opening fuel (pieces.flatMap Piece.text ++ .char '"' :: rest) =
      .ok (Piece.decode pieces, rest) := by
  fun_induction Piece.decode pieces generalizing fuel with
  | case1 high low pieces hpair ih =>
    obtain ⟨fuel, rfl⟩ := Nat.exists_eq_add_one_of_ne_zero (Nat.ne_zero_of_lt h)
    obtain ⟨c, tail, htail⟩ := exists_flatMap_eq pieces rest
    have hread := ih fuel (by simp only [List.length_cons] at h; omega)
    rw [htail] at hread
    simp only [List.flatMap_cons, List.append_assoc, htail]
    exact stringTail_unit (unicodeEscape_pair hpair.1 hpair.2 _) hread
  | case2 high low pieces hpair ih =>
    obtain ⟨fuel, rfl⟩ := Nat.exists_eq_add_one_of_ne_zero (Nat.ne_zero_of_lt h)
    have hread := ih fuel (by simp only [List.length_cons] at h ⊢; omega)
    obtain ⟨c, tail, htail⟩ := exists_flatMap_eq (.unit low :: pieces) rest
    rw [List.flatMap_cons, List.append_assoc, htail]
    refine stringTail_unit (unicodeEscape_single high _ ?_) (htail ▸ hread)
    intro hhigh more hmore
    obtain ⟨d, tail', htail'⟩ := exists_flatMap_eq pieces rest
    rw [← htail, List.flatMap_cons, List.append_assoc, htail'] at hmore
    obtain rfl : low.digits ++ d :: tail' = more := (List.cons.inj (List.cons.inj hmore).2).2
    refine ⟨low.code, d :: tail', unitCode?_digits low d tail', ?_⟩
    rw [isLowHalf_code]
    exact decide_eq_false fun hlow => hpair ⟨hhigh, hlow⟩
  | case3 piece pieces hother ih =>
    obtain ⟨fuel, rfl⟩ := Nat.exists_eq_add_one_of_ne_zero (Nat.ne_zero_of_lt h)
    have hread := ih fuel (by simp only [List.length_cons] at h; omega)
    rw [List.flatMap_cons, List.append_assoc]
    cases piece with
    | plain c => exact stringTail_plain c hread
    | escape e => exact stringTail_escape e hread
    | unit u =>
      obtain ⟨c, tail, htail⟩ := exists_flatMap_eq pieces rest
      rw [htail] at hread ⊢
      refine stringTail_unit (unicodeEscape_single u _ ?_) hread
      intro _ more hmore
      obtain ⟨low, others, rfl⟩ := exists_unit_of_flatMap_eq (htail.trans hmore)
      exact absurd rfl (hother u low others rfl)
  | case4 =>
    obtain ⟨fuel, rfl⟩ := Nat.exists_eq_add_one_of_ne_zero (Nat.ne_zero_of_lt h)
    rfl

theorem length_le_flatMap (pieces : List Piece) :
    pieces.length ≤ (pieces.flatMap Piece.text).length := by
  induction pieces with
  | nil => simp
  | cons piece pieces ih =>
    have hpiece : 1 ≤ piece.text.length := by cases piece <;> simp [Piece.text]
    rw [List.flatMap_cons, List.length_append, List.length_cons]
    omega

theorem readString_pieces (pieces : List Piece) (rest : Text) :
    readString (pieces.flatMap Piece.text ++ .char '"' :: rest) =
      .ok (Piece.decode pieces, rest) := by
  refine stringTail_pieces _ pieces rest _ ?_
  have hlength := length_le_flatMap pieces
  rw [List.length_append]
  omega

end Relink.Json
