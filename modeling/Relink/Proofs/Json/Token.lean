import Mathlib.Data.Nat.Digits.Defs
import Mathlib.Order.Lattice
import Relink.Json.Reader
import Relink.Text.Blank

namespace Relink.Json

abbrev Digit := Fin 10

def Digit.char (digit : Digit) : CodePoint := Nat.digitChar digit

def numberOf (digits : List Digit) : Nat := Nat.ofDigits 10 (digits.reverse.map Fin.val)

structure Exponent where
  isUpper : Bool
  sign : Option Bool
  digits : List Digit
  digits_ne : digits ≠ []

namespace Exponent

def text (exponent : Exponent) : Text :=
  (if exponent.isUpper then 'E' else 'e') ::
    match exponent.sign with
    | none => exponent.digits.map Digit.char
    | some false => '+' :: exponent.digits.map Digit.char
    | some true => '-' :: exponent.digits.map Digit.char

def value (exponent : Exponent) : Int :=
  if exponent.sign = some true then -numberOf exponent.digits else numberOf exponent.digits

end Exponent

structure Numeral where
  isNegative : Bool
  whole : List Digit
  whole_ne : whole ≠ []
  noLeadingZero : whole.head? = some 0 → whole = [0]
  decimals : List Digit
  exponent : Option Exponent

namespace Numeral

def unsigned (numeral : Numeral) : Text :=
  numeral.whole.map Digit.char ++
    (if numeral.decimals = [] then [] else .char '.' :: numeral.decimals.map Digit.char) ++
    (numeral.exponent.map Exponent.text).getD []

def text (numeral : Numeral) : Text :=
  (if numeral.isNegative then [.char '-'] else []) ++ numeral.unsigned

def value (numeral : Numeral) : Number :=
  if numeral.decimals = [] ∧ numeral.exponent.isNone then
    .whole (if numeral.isNegative then -numberOf numeral.whole else numberOf numeral.whole)
  else
    .real numeral.isNegative (numberOf (numeral.whole ++ numeral.decimals))
      ((numeral.exponent.map Exponent.value).getD 0 - numeral.decimals.length)

end Numeral

structure HexDigit where
  value : Fin 16
  isUpper : Bool

def HexDigit.char (digit : HexDigit) : CodePoint :=
  if digit.isUpper then (Nat.digitChar digit.value).toUpper else Nat.digitChar digit.value

inductive Escape
  | quote
  | backslash
  | slash
  | backspace
  | formFeed
  | lineFeed
  | carriageReturn
  | tab
  deriving DecidableEq

namespace Escape

def mark : Escape → CodePoint
  | .quote => '"'
  | .backslash => '\\'
  | .slash => '/'
  | .backspace => 'b'
  | .formFeed => 'f'
  | .lineFeed => 'n'
  | .carriageReturn => 'r'
  | .tab => 't'

def char : Escape → CodePoint
  | .quote => '"'
  | .backslash => '\\'
  | .slash => '/'
  | .backspace => '\x08'
  | .formFeed => '\x0c'
  | .lineFeed => '\n'
  | .carriageReturn => '\r'
  | .tab => '\t'

end Escape

structure CodeUnit where
  first : HexDigit
  second : HexDigit
  third : HexDigit
  fourth : HexDigit

namespace CodeUnit

def digits (unit : CodeUnit) : Text :=
  [unit.first.char, unit.second.char, unit.third.char, unit.fourth.char]

def code (unit : CodeUnit) : Nat :=
  Nat.ofDigits 16 [unit.fourth.value.val, unit.third.value.val, unit.second.value.val,
    unit.first.value.val]

def IsHigh (unit : CodeUnit) : Prop := 0xd800 ≤ unit.code ∧ unit.code < 0xdc00

def IsLow (unit : CodeUnit) : Prop := 0xdc00 ≤ unit.code ∧ unit.code < 0xe000

instance (unit : CodeUnit) : Decidable unit.IsHigh := inferInstanceAs (Decidable (_ ∧ _))

instance (unit : CodeUnit) : Decidable unit.IsLow := inferInstanceAs (Decidable (_ ∧ _))

/-- What a unit stands for by itself: a character, or half of a surrogate pair. -/
def char (unit : CodeUnit) : CodePoint := .ofNat unit.code

def pair (high low : CodeUnit) : CodePoint :=
  .ofNat (0x10000 + (high.code - 0xd800) * 0x400 + (low.code - 0xdc00))

end CodeUnit

structure PlainChar where
  char : CodePoint
  isPrintable : 0x20 ≤ char.toNat
  ne_quote : char ≠ '"'
  ne_backslash : char ≠ '\\'

inductive Piece
  | plain (c : PlainChar)
  | escape (e : Escape)
  | unit (u : CodeUnit)

namespace Piece

def text : Piece → Text
  | .plain c => [c.char]
  | .escape e => ['\\', e.mark]
  | .unit u => '\\' :: 'u' :: u.digits

def char : Piece → CodePoint
  | .plain c => c.char
  | .escape e => e.char
  | .unit u => u.char

/-- The text that pieces of a string stand for: surrogate pairs are joined from left to right. -/
def decode : List Piece → Text
  | .unit high :: .unit low :: pieces =>
    if high.IsHigh ∧ low.IsLow then high.pair low :: decode pieces
    else high.char :: decode (.unit low :: pieces)
  | piece :: pieces => piece.char :: decode pieces
  | [] => []

end Piece

inductive Token
  | openObject
  | closeObject
  | openArray
  | closeArray
  | colon
  | comma
  | null
  | bool (value : Bool)
  | number (numeral : Numeral)
  | string (pieces : List Piece)

namespace Token

def text : Token → Text
  | .openObject => ['\x7b']
  | .closeObject => ['\x7d']
  | .openArray => ['[']
  | .closeArray => [']']
  | .colon => [':']
  | .comma => [',']
  | .null => "null"
  | .bool true => "true"
  | .bool false => "false"
  | .number numeral => numeral.text
  | .string pieces => .char '"' :: pieces.flatMap Piece.text ++ [.char '"']

def Opens (token : Token) : Prop := token = .openObject ∨ token = .openArray

def Closes (token : Token) : Prop := token = .closeObject ∨ token = .closeArray

end Token

variable {c : CodePoint}

theorem Digit.isDigit_char : ∀ digit : Digit, digit.char.isDigit = true := by decide

def IsNumeric : CodePoint → Prop
  | .char c => c.isAlphanum = true ∨ c ∈ "+-.".toList
  | .half _ => False

instance : DecidablePred IsNumeric
  | .char c => inferInstanceAs (Decidable (c.isAlphanum = true ∨ c ∈ "+-.".toList))
  | .half _ => inferInstanceAs (Decidable False)

theorem HexDigit.isNumeric_char (digit : HexDigit) : IsNumeric digit.char := by
  obtain ⟨value, isUpper⟩ := digit
  revert value isUpper
  decide

theorem Digit.isNumeric_char : ∀ digit : Digit, IsNumeric digit.char := by decide

theorem Exponent.isNumeric (exponent : Exponent) : ∀ c ∈ exponent.text, IsNumeric c := by
  have hdigits : ∀ c ∈ exponent.digits.map Digit.char, IsNumeric c :=
    List.forall_mem_map.2 fun digit _ => digit.isNumeric_char
  refine List.forall_mem_cons.2 ⟨?_, ?_⟩
  · split <;> exact .inl rfl
  · split
    · exact hdigits
    · exact List.forall_mem_cons.2 ⟨.inr (by decide), hdigits⟩
    · exact List.forall_mem_cons.2 ⟨.inr (by decide), hdigits⟩

theorem Numeral.isNumeric (numeral : Numeral) : ∀ c ∈ numeral.text, IsNumeric c := by
  have hdigits : ∀ digits : List Digit, ∀ c ∈ digits.map Digit.char, IsNumeric c :=
    fun digits => List.forall_mem_map.2 fun digit _ => digit.isNumeric_char
  simp only [text, unsigned, List.forall_mem_append]
  refine ⟨?_, ⟨hdigits _, ?_⟩, ?_⟩
  · split
    · exact List.forall_mem_singleton.2 (.inr (by decide))
    · simp
  · split
    · simp
    · exact List.forall_mem_cons.2 ⟨.inr (by decide), hdigits _⟩
  · cases numeral.exponent with
    | none => simp
    | some exponent => exact exponent.isNumeric

namespace IsNumeric

theorem bounds (h : IsNumeric c) : 43 ≤ c.toNat ∧ c.toNat ≤ 122 := by
  cases c with
  | half index => cases h
  | char c =>
  rw [CodePoint.toNat_char]
  obtain h | h := h
  · unfold Char.isAlphanum Char.isAlpha Char.isUpper Char.isLower Char.isDigit at h
    simp only [ge_iff_le, Bool.or_eq_true, Bool.and_eq_true, decide_eq_true_eq,
      UInt32.le_iff_toNat_le] at h
    obtain (⟨hlow, hhigh⟩ | ⟨hlow, hhigh⟩) | ⟨hlow, hhigh⟩ := h
    · exact ⟨le_trans (show 43 ≤ 65 by decide) hlow, le_trans hhigh (show 90 ≤ 122 by decide)⟩
    · exact ⟨le_trans (show 43 ≤ 97 by decide) hlow, hhigh⟩
    · exact ⟨le_trans (show 43 ≤ 48 by decide) hlow, le_trans hhigh (show 57 ≤ 122 by decide)⟩
  · simp only [String.reduceToList, List.mem_cons, List.not_mem_nil, or_false] at h
    obtain rfl | rfl | rfl := h <;> decide

theorem isBlank_eq (h : IsNumeric c) : isBlank c = false := by
  have hbounds := h.bounds
  simp only [isBlank, Bool.or_eq_false_iff, Bool.and_eq_false_iff, beq_eq_false_iff_ne,
    decide_eq_false_iff_not]
  omega

theorem not_mem (h : IsNumeric c) : c ∉ ("\",/\x7b\x7d[]\\" : Text) := by
  intro hmem
  simp only [String.reduceToList, List.map_cons, List.map_nil, List.mem_cons, List.not_mem_nil,
    or_false] at hmem
  obtain rfl | rfl | rfl | rfl | rfl | rfl | rfl | rfl := hmem <;> revert h <;> decide

end IsNumeric

theorem CodeUnit.isNumeric (unit : CodeUnit) : ∀ c ∈ unit.digits, IsNumeric c := by
  simp only [digits, List.forall_mem_cons]
  exact ⟨unit.first.isNumeric_char, unit.second.isNumeric_char, unit.third.isNumeric_char,
    unit.fourth.isNumeric_char, by simp⟩

theorem Escape.mark_ne_lineFeed (e : Escape) : e.mark ≠ '\n' := by
  cases e <;> decide

theorem isBlank_of_isSpace (h : isSpace c = true) : isBlank c = true := by
  simp only [isSpace, Bool.or_eq_true, beq_iff_eq] at h
  obtain ((rfl | rfl) | rfl) | rfl := h <;> rfl

namespace Token

theorem not_mem_text {token : Token} (hstring : ∀ pieces, token ≠ .string pieces) :
    ∀ c ∈ token.text, c ≠ '"' ∧ c ≠ '/' ∧ (c = ',' → token = .comma) := by
  cases token with
  | number numeral =>
    intro c hc
    have hnot := (numeral.isNumeric c hc).not_mem
    refine ⟨?_, ?_, ?_⟩ <;> rintro rfl <;> exact absurd (by decide) hnot
  | string pieces => exact absurd rfl (hstring pieces)
  | bool value => cases value <;> simp [text]
  | null => simp [text]
  | openObject => simp [text]
  | closeObject => simp [text]
  | openArray => simp [text]
  | closeArray => simp [text]
  | colon => simp [text]
  | comma => simp [text]

theorem exists_text_eq (token : Token) :
    ∃ c rest, token.text = c :: rest ∧ isBlank c = false ∧ c.toNat < 0x80 ∧
      (c = '\x7d' ∨ c = ']' → token.Closes) := by
  cases token with
  | number numeral =>
    have hne : numeral.text ≠ [] := by simp [Numeral.text, Numeral.unsigned, numeral.whole_ne]
    obtain ⟨c, rest, htext⟩ := List.exists_cons_of_ne_nil hne
    have hc := numeral.isNumeric c (htext ▸ List.mem_cons_self)
    refine ⟨c, rest, htext, hc.isBlank_eq, Nat.lt_of_le_of_lt hc.bounds.2 (by decide), ?_⟩
    rintro (rfl | rfl) <;> exact absurd (by decide) hc.not_mem
  | bool value =>
    cases value
    · exact ⟨'f', _, rfl, rfl, by decide, by simp⟩
    · exact ⟨'t', _, rfl, rfl, by decide, by simp⟩
  | closeObject => exact ⟨_, _, rfl, rfl, by decide, fun _ => .inl rfl⟩
  | closeArray => exact ⟨_, _, rfl, rfl, by decide, fun _ => .inr rfl⟩
  | string pieces => exact ⟨'"', _, rfl, rfl, by decide, by simp⟩
  | null => exact ⟨'n', _, rfl, rfl, by decide, by simp⟩
  | openObject => exact ⟨'\x7b', _, rfl, rfl, by decide, by simp⟩
  | openArray => exact ⟨'[', _, rfl, rfl, by decide, by simp⟩
  | colon => exact ⟨':', _, rfl, rfl, by decide, by simp⟩
  | comma => exact ⟨',', _, rfl, rfl, by decide, by simp⟩

end Token

end Relink.Json
