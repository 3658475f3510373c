import Relink.Source.Outline.Call

namespace Relink.Source.Step

def typeOperators : List Chars := ["keyof", "typeof", "new"]

def typeModifiers : List Chars := ["unique", "readonly", "infer", "asserts", "abstract"]

def typeWord (read : Reader) (mode : TypeMode) (s : Scan) : Scan :=
  let word := s.word
  let name := s.takeWord
  if word = "import" then
    match read.importCall? s with
    | some after => read (.typeOperator mode) after
    | none => read (.typeOperator mode) name
  else if typeOperators.contains word then read (.type mode) name
  else if typeModifiers.contains word ∧ !name.toOperand.freshLine then
    let after := read (.type mode) name
    if after.offset = name.offset then read (.typeOperator mode) name else after
  else read (.typeOperator mode) name

def opensParameters (s : Scan) : Bool :=
  let first := (s.take 1).toOperand
  match first.peek? with
  | none => false
  | some c =>
    if first.word ≠ [] then
      first.takeWord.toOperator.peek?.any fun c => ":,?=)".toList.contains c
    else ").[\x7b@".toList.contains c

def type (read : Reader) (mode : TypeMode) (s : Scan) : Scan :=
  let s := s.toOperand
  let rest := read (.typeOperator mode)
  match s.peek? with
  | none => s
  | some '|' => if s.peekAfter? 1 = some '|' then s else read (.type mode) (s.take 1)
  | some '&' => if s.peekAfter? 1 = some '&' then s else read (.type mode) (s.take 1)
  | some '\'' => rest (s.takeString none)
  | some '"' => rest (s.takeString none)
  | some '\x60' => rest (read.template true s)
  | some '-' => rest (s.take 1).takeNumber
  | some '(' =>
    let after := read.typeItems ')' s
    let arrow := after.toOperator
    if arrow.looksAt "=>" && opensParameters s then read (.type mode) (arrow.take 2)
    else rest after
  | some '[' => rest (read.typeItems ']' s)
  | some '\x7b' => rest (read.between 1 .typeMembers '\x7d' s)
  | some '<' => read (.type mode) (read.typeItems '>' s)
  | some '.' => if s.looksAt "..." then read (.type mode) (s.take 3) else s
  | some _ =>
    if s.atDigit then rest s.takeNumber
    else if s.word = [] then s
    else typeWord read mode s

def typeOperator (read : Reader) (mode : TypeMode) (before : Scan) : Scan :=
  let s := before.toOperator
  let more (chars : Nat) := read (.type mode) (s.take chars)
  match s.peek? with
  | some '.' =>
    if s.peekAfter? 1 = some '.' then before
    else read (.typeOperator mode) (s.take 1).toOperator.takeWord
  | some '<' => read (.typeOperator mode) (read.typeItems '>' s)
  | some '[' =>
    if s.freshLine then before else read (.typeOperator mode) (read.typeItems ']' s)
  | some '|' => if s.peekAfter? 1 = some '|' then before else more 1
  | some '&' => if s.peekAfter? 1 = some '&' then before else more 1
  | some '?' =>
    if 0 < mode.bounds then
      read (.type ⟨mode.bounds - 1, mode.conditions + 1⟩) (s.take 1)
    else before
  | some ':' =>
    if 0 < mode.conditions then read (.type ⟨mode.bounds, mode.conditions - 1⟩) (s.take 1)
    else before
  | some 'e' =>
    if s.word = "extends" then read (.type ⟨mode.bounds + 1, mode.conditions⟩) s.takeWord
    else before
  | some 'i' => if s.word = "is" ∧ !s.freshLine then read (.type mode) s.takeWord else before
  | _ => before

def parameterModifiers : List Chars := ["const", "in", "out"]

/-- The list between angle brackets. It goes on only behind a comma or a default, so that a
comparison does not pass for it. -/
def angleItems (read : Reader) (s : Scan) : Scan :=
  let s := s.toOperand
  if parameterModifiers.contains s.word ∧ s.nextWord ≠ [] then read (.typeItems '>') s.takeWord
  else
    let after := read.typeOf s
    let next := after.toOperator
    match next.peek? with
    | some ',' => read (.typeItems '>') (next.take 1)
    | some '=' => if next.looksAt "=>" then after else read (.typeItems '>') (next.take 1)
    | _ => after

def isCloser (c : Char) : Bool := c == ')' || c == ']' || c == '\x7d'

def typeItems (read : Reader) (closer : Char) (s : Scan) : Scan :=
  if closer = '>' then angleItems read s
  else
    let s := s.toOperand
    match s.peek? with
    | none => s
    | some c =>
      if isCloser c then s
      else if s.word = "in" ∨ s.word = "as" then read (.typeItems closer) s.takeWord
      else read (.typeItems closer) ((read.typeOf s).advanceFrom s)

def typeMembers (read : Reader) (s : Scan) : Scan :=
  let s := s.toOperand
  let more := read .typeMembers
  match s.peek? with
  | none => s
  | some '\x7d' => s
  | some '(' => more (read.typeItems ')' s)
  | some '[' => more (read.typeItems ']' s)
  | some '<' => more (read.typeItems '>' s)
  | some ':' => more (read.typeOf (s.take 1))
  | some '\'' => more (s.takeString none)
  | some '"' => more (s.takeString none)
  | some _ => more (s.takeWord.advanceFrom s)

end Relink.Source.Step
