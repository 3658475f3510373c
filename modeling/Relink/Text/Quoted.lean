import Relink.Text.Printable

namespace Relink.Text

def hex (width n : Nat) : Chars :=
  let digits := Nat.toDigits 16 n
  List.replicate (width - digits.length) '0' ++ digits

def quotedChar (mark c : CodePoint) : Text :=
  if c = mark ∨ c = '\\' then ['\\', c]
  else if c = '\t' then "\\t"
  else if c = '\n' then "\\n"
  else if c = '\r' then "\\r"
  else if isPrintable c then [c]
  else if c.toNat ≤ 0xff then "\\x" ++ (hex 2 c.toNat).map CodePoint.char
  else if c.toNat ≤ 0xffff then "\\u" ++ (hex 4 c.toNat).map CodePoint.char
  else "\\U" ++ (hex 8 c.toNat).map CodePoint.char

/-- A text in quotes, as diagnostics show it: in single quotes unless it holds one and no double
quote, unprintable code points by number. -/
def quoted (text : Text) : Text :=
  let mark : CodePoint := if text.contains '\'' && !text.contains '"' then '"' else '\''
  mark :: text.flatMap (quotedChar mark) ++ [mark]

/-- What a terminal is sent for a text: halves of surrogate pairs are written by number. -/
def shown (text : Text) : Chars :=
  text.flatMap fun
    | .char c => [c]
    | .half index => "\\u".toList ++ hex 4 (0xd800 + index)

end Relink.Text
