import Relink.Source.Grammar
import Relink.Text.Blank

/-!
A place in a source text, with what has been found up to there. Lexical elements are measured by
recursion over the text that is left: gaps of white space and comments, words, strings and regular
expressions.
-/

namespace Relink.Source.Outline

def isLineEnd (c : Char) : Bool := c == '\n' || c == '\r' || c == '\u2028' || c == '\u2029'

def isSpace (c : Char) : Bool :=
  isBlank c || c == '\ufeff' || c == '\u2060' || c == '\u200b'

def isWordChar (c : Char) : Bool :=
  c.isAlphanum || c == '_' || c == '$' || c == '\\' || (0x80 ≤ c.toNat && !isSpace c)

structure Gap where
  chars : Nat
  lineEnd : Bool
  comment : Bool

def Gap.none : Gap := ⟨0, false, false⟩

def Gap.extend (gap : Gap) (chars : Nat) (c : Char) : Gap :=
  { gap with chars := gap.chars + chars, lineEnd := gap.lineEnd || isLineEnd c }

def Gap.open (gap : Gap) (chars : Nat) : Gap :=
  { gap with chars := gap.chars + chars, comment := true }

inductive Comment
  | none
  | line
  | markup
  | block

/-- Measures the gap at the head of a text. In front of an operand the arrows of markup comments
open a line comment as well, one that a carriage return does not end. -/
def measureGap (operand : Bool) : Comment → Gap → Chars → Gap
  | .none, gap, '/' :: '/' :: rest => measureGap operand .line (gap.open 2) rest
  | .none, gap, '/' :: '*' :: rest => measureGap operand .block (gap.open 2) rest
  | .none, gap, '<' :: '!' :: '-' :: '-' :: rest =>
    if operand then measureGap operand .markup (gap.open 4) rest else gap
  | .none, gap, '-' :: '-' :: '>' :: rest =>
    if operand then measureGap operand .markup (gap.open 3) rest else gap
  | .none, gap, c :: rest =>
    if isSpace c then measureGap operand .none (gap.extend 1 c) rest else gap
  | .line, gap, c :: rest =>
    measureGap operand (if isLineEnd c then .none else .line) (gap.extend 1 c) rest
  | .markup, gap, c :: rest =>
    measureGap operand (if isLineEnd c && c != '\r' then .none else .markup) (gap.extend 1 c) rest
  | .block, gap, '*' :: '/' :: rest => measureGap operand .none (gap.extend 2 '/') rest
  | .block, gap, c :: rest => measureGap operand .block (gap.extend 1 c) rest
  | _, gap, [] => gap

def stringLength (mark : Char) : Chars → Nat
  | [] => 0
  | '\\' :: '\r' :: '\n' :: rest => 3 + stringLength mark rest
  | '\\' :: _ :: rest => 2 + stringLength mark rest
  | c :: rest => if c == mark then 1 else if c == '\n' then 0 else 1 + stringLength mark rest

def patternLength : Bool → Chars → Nat
  | _, [] => 0
  | inClass, '\\' :: _ :: rest => 2 + patternLength inClass rest
  | inClass, c :: rest =>
    if isLineEnd c then 0
    else if c == '/' && !inClass then 1
    else 1 + patternLength (if c == '[' then true else if c == ']' then false else inClass) rest

def templateLength : Chars → Nat
  | [] => 0
  | '\\' :: _ :: rest => 2 + templateLength rest
  | '$' :: '\x7b' :: _ => 0
  | c :: rest => if c == '\x60' then 0 else 1 + templateLength rest

end Outline

structure Scan where
  dialect : Dialect
  rest : Chars
  offset : Nat
  tokenEnd : Nat
  freshLine : Bool
  found : List Node
  broken : Bool

namespace Scan

open Outline

def ofText (dialect : Dialect) (text : Chars) : Scan where
  dialect := dialect
  rest := text
  offset := 0
  tokenEnd := 0
  freshLine := true
  found := []
  broken := false

def hasTypes (s : Scan) : Bool := s.dialect != .javascript

def hasMarkup (s : Scan) : Bool := s.dialect != .typescript

def peek? (s : Scan) : Option Char := s.rest.head?

def peekAfter? (s : Scan) (chars : Nat) : Option Char := (s.rest.drop chars).head?

def looksAt (s : Scan) (text : Chars) : Bool := text.isPrefixOf s.rest

def octets (text : Chars) : Nat := text.foldl (fun count c => count + c.utf8Size) 0

def take (s : Scan) (chars : Nat) : Scan :=
  let offset := s.offset + octets (s.rest.take chars)
  { s with rest := s.rest.drop chars, offset, tokenEnd := offset, freshLine := false }

def skip (s : Scan) (gap : Gap) : Scan :=
  { s with
    rest := s.rest.drop gap.chars
    offset := s.offset + octets (s.rest.take gap.chars)
    freshLine := s.freshLine || gap.lineEnd }

def gap (s : Scan) (operand : Bool) : Gap := measureGap operand .none .none s.rest

def toOperand (s : Scan) : Scan := s.skip (s.gap true)

def toOperator (s : Scan) : Scan := s.skip (s.gap false)

def close (s : Scan) (mark : Char) : Scan :=
  let next := s.toOperator
  if next.peek? = some mark then next.take 1 else s

def word (s : Scan) : Chars :=
  match s.rest with
  | c :: _ => if c.isDigit then [] else s.rest.takeWhile isWordChar
  | [] => []

def takeWord (s : Scan) : Scan := s.take s.word.length

def nextWord (s : Scan) : Chars := s.takeWord.toOperator.word

def nextWordHere (s : Scan) : Chars :=
  let next := s.takeWord.toOperator
  if next.freshLine then [] else next.word

def emit (s : Scan) (node : Node) : Scan := { s with found := node :: s.found }

def breakOff (s : Scan) : Scan := { s with broken := true }

def collect (s : Scan) (step : Scan → Scan) : List Node × Scan :=
  let after := step { s with found := [] }
  (after.found.reverse, { after with found := s.found })

def mute (s : Scan) (step : Scan → Scan) : Scan := (s.collect step).2

def advanceFrom (s before : Scan) : Scan := if s.offset = before.offset then s.take 1 else s

def leaf (kind : Kind) (named : Bool) (field : Option Field) (start stop : Nat) : Node :=
  ⟨kind, named, field, start, stop, []⟩

def takeString (s : Scan) (field : Option Field) : Scan :=
  match s.rest with
  | mark :: rest =>
    let after := s.take (1 + stringLength mark rest)
    after.emit (leaf .string true field s.offset after.offset)
  | [] => s

def takePattern (s : Scan) : Scan :=
  let body := s.take (1 + patternLength false (s.rest.drop 1))
  body.take (body.rest.takeWhile isWordChar).length

def takeNumber (s : Scan) : Scan :=
  s.take (s.rest.takeWhile fun c => isWordChar c || c == '.').length

def atString (s : Scan) : Bool := s.peek?.any fun c => c == '\'' || c == '"'

def atDigit (s : Scan) : Bool := s.peek?.any Char.isDigit

end Scan

end Relink.Source
