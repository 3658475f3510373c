import Relink.Source.Outline.Types

namespace Relink.Source

namespace Reader

def decorator (read : Reader) (s : Scan) : Scan :=
  let s := s.toOperand
  if s.peek? = some '(' then read.items ')' s
  else
    let name := s.take (s.rest.takeWhile fun c => isNamePart c).length
    read.parameters (read.typeList name)
where
  isNamePart (c : Char) : Bool := Outline.isWordChar c || c == '.' || c == '#'

def functionRest (read : Reader) (s : Scan) : Scan :=
  let head := (read.annotation (read.parameters (read.typeList s))).toOperator
  if head.peek? = some '\x7b' then read.block head else head

def function (read : Reader) (s : Scan) : Scan :=
  let s := s.toOperator
  let s := if s.peek? = some '*' then (s.take 1).toOperator else s
  read.functionRest s.takeWord

def heritage (read : Reader) : Nat → Scan → Scan
  | 0, s => s
  | fuel + 1, s =>
    let s := s.toOperator
    if s.word = "extends" then read.heritage fuel (read.expression s.takeWord)
    else if s.word = "implements" ∨ s.peek? = some ',' then
      read.heritage fuel (read.typeOf (s.take (max 1 s.word.length)))
    else s

def classRest (read : Reader) (s : Scan) : Scan :=
  let s := s.toOperator
  let named := s.word ≠ "extends" ∧ s.word ≠ "implements"
  let head := read.typeList (if named then s.takeWord else s)
  let head := (read.heritage (head.rest.length + 1) head).toOperator
  if head.peek? = some '\x7b' then read.between 1 .classMembers '\x7d' head else head

def endsTypeArguments (s : Scan) : Bool :=
  let next := s.toOperator
  match next.peek? with
  | none => true
  | some c =>
    next.freshLine || "(\x60)]\x7d\x7b,;:.?=&|^*%/!".toList.contains c ||
      wordsBehindTypes.contains next.word
where
  wordsBehindTypes : List Chars := ["in", "instanceof", "as", "satisfies", "implements"]

def typeArguments? (read : Reader) (s : Scan) : Option Scan :=
  if !s.hasTypes || s.looksAt "<<" || s.looksAt "<=" then none
  else
    let after := (read (.typeItems '>') (s.take 1)).toOperator
    if after.peek? = some '>' && endsTypeArguments (after.take 1) then some (after.take 1) else none

def arrowBody (read : Reader) (s : Scan) : Scan :=
  let body := s.toOperand
  if body.peek? = some '\x7b' then read.block body else read.expression body

/-- The result type of an arrow function, if the arrow follows it. Within a condition the colon may
be the condition's; it is not when a further one comes behind the body. -/
def arrowResult (read : Reader) (mode : Mode) (s : Scan) : Scan :=
  let mark := s.toOperator
  if mark.peek? = some ':' then
    let after := read.typeOf (mark.take 1)
    let arrow := after.toOperator
    if arrow.looksAt "=>" &&
        (mode.conditions == 0 || (read.arrowBody (arrow.take 2)).toOperator.peek? == some ':') then
      after
    else s
  else s

def angle (read : Reader) (mode : Mode) (s : Scan) : Scan :=
  let types (s : Scan) := read (.operand mode) (read.typeItems '>' s)
  if s.hasMarkup && !startsTypeParameters s then read (.operator mode) (read .element s)
  else types s
where
  startsTypeParameters (s : Scan) : Bool :=
    let name := (s.take 1).toOperand
    let next := name.takeWord.toOperator
    s.hasTypes && name.word ≠ [] &&
      (next.peek? == some ',' || next.peek? == some '=' || name.word == "const" ||
        (next.word == "extends" && !(next.takeWord.toOperator.peek?.any fun c =>
          c == '=' || c == '>' || c == '/')))

end Reader

namespace Step

def unaryWords : List Chars := ["typeof", "void", "delete", "await", "yield", "new"]

def operatorWords : List Chars := ["in", "instanceof", "as", "satisfies", "of"]

def operandWord (read : Reader) (mode : Mode) (s : Scan) : Scan :=
  let word := s.word
  let name := s.takeWord
  let rest := read (.operator mode)
  if word = "function" then rest (read.function name)
  else if word = "class" then rest (read.classRest name)
  else if word = "import" then rest ((read.importCall? s).getD name)
  else if word = "async" then
    let next := name.toOperator
    let follower := s.nextWordHere
    if follower ≠ [] ∧ (!operatorWords.contains follower ∨
      next.takeWord.toOperator.looksAt "=>") then
      read (.operand mode) name
    else
      let head := if next.peek? = some '<' then (read.typeArguments? next).getD name else name
      let list := head.toOperator
      if list.peek? = some '(' then rest (read.arrowResult mode (read.items ')' list)) else rest
        name
  else if unaryWords.contains word ∧ name.toOperator.peek? ≠ some '.' then read (.operand mode) name
  else rest name

def operand (read : Reader) (mode : Mode) (s : Scan) : Scan :=
  let s := s.toOperand
  let rest := read (.operator mode)
  let again := read (.operand mode)
  match s.peek? with
  | none => s
  | some c =>
    match c with
    | '\'' => rest (s.takeString none)
    | '"' => rest (s.takeString none)
    | '\x60' => rest (read.template false s)
    | '/' => rest s.takePattern
    | '(' => rest (read.arrowResult mode (read.items ')' s))
    | '[' => rest (read.items ']' s)
    | '\x7b' => rest (read.between 1 .objectMembers '\x7d' s)
    | '<' => read.angle mode s
    | '@' => again (read.decorator (s.take 1))
    | '.' => if (s.peekAfter? 1).any Char.isDigit then rest s.takeNumber else again (s.take 1)
    | _ =>
      if "#+-!~&|^*%=>?".toList.contains c then again (s.take 1)
      else if s.atDigit then rest s.takeNumber
      else if s.word = [] then s
      else operandWord read mode s

def takeMember (s : Scan) : Scan :=
  let s := s.toOperator
  (if s.peek? = some '#' then s.take 1 else s).takeWord

def arrow (read : Reader) (mode : Mode) (s : Scan) : Scan :=
  let body := (s.take 2).toOperand
  if body.peek? = some '\x7b' then
    read (.operator ⟨mode.comma, mode.conditions, true⟩) (read.block body)
  else read (.operand mode) body

def question (read : Reader) (mode : Mode) (before s : Scan) : Scan :=
  let next := s.peekAfter? 1
  if next = some '.' ∧ !(s.peekAfter? 2).any Char.isDigit then
    read (.operator mode) (takeMember (s.take 2))
  else if next = some '?' then read (.operand mode) (s.take 2)
  else
    let after := (s.take 1).toOperand
    if after.peek?.all fun c => ":,)=".toList.contains c then before
    else read (.operand ⟨mode.comma, mode.conditions + 1, false⟩) (s.take 1)

def operatorWord (read : Reader) (mode : Mode) (before s : Scan) : Scan :=
  if s.word = "in" ∨ s.word = "instanceof" ∨ s.word = "of" ∧ !s.freshLine then
    read (.operand mode) s.takeWord
  else if (s.word = "as" ∨ s.word = "satisfies") ∧ s.hasTypes ∧ !s.freshLine then
    let target := s.takeWord.toOperand
    read (.operator mode) (if target.word = "const" then target.takeWord else read.typeOf target)
  else before

def operator (read : Reader) (mode : Mode) (before : Scan) : Scan :=
  let s := before.toOperator
  let rest := read (.operator mode)
  let operand (chars : Nat) := read (.operand mode) (s.take chars)
  match s.peek? with
  | none => before
  | some c =>
    if c = ',' then
      if mode.comma then read (.operand ⟨true, mode.conditions, false⟩) (s.take 1) else before
    else if c = ':' then
      if 0 < mode.conditions then
        read (.operand ⟨mode.comma, mode.conditions - 1, false⟩) (s.take 1)
      else before
    else if mode.closed then before
    else
      match c with
      | '.' => if s.peekAfter? 1 = some '.' then before else rest (takeMember (s.take 1))
      | '?' => question read mode before s
      | '!' =>
        if s.peekAfter? 1 = some '=' then operand 2
        else if s.freshLine then before
        else rest (s.take 1)
      | '=' => if s.looksAt "=>" then arrow read mode s else operand 1
      | '<' =>
        match read.typeArguments? s with
        | some after => rest after
        | none => operand (if s.looksAt "<<" then 2 else 1)
      | '(' => rest (read.items ')' s)
      | '[' => rest (read.items ']' s)
      | '\x60' => rest (read.template false s)
      | '+' =>
        if s.looksAt "++" then if s.freshLine then before else rest (s.take 2) else operand 1
      | '-' =>
        if s.looksAt "--" then if s.freshLine then before else rest (s.take 2) else operand 1
      | _ =>
        if "/*%&|^>".toList.contains c then operand 1
        else if s.word = [] then before
        else operatorWord read mode before s

def item (read : Reader) (s : Scan) : Scan :=
  let value := read.expression s
  let next := value.toOperator
  let marked := if next.peek? = some '?' then next.take 1 else value
  let typed := read.annotation marked
  let next := typed.toOperator
  if next.peek? = some '=' ∧ !next.looksAt "=>" ∧ !next.looksAt "==" then
    read.expression (next.take 1)
  else typed

def bindingWords : List Chars := ["const", "let", "var"]

def items (read : Reader) (closer : Char) (s : Scan) : Scan :=
  let s := s.toOperand
  match s.peek? with
  | none => s
  | some c =>
    if c = closer ∨ isCloser c then s
    else if c = '@' then read (.items closer) (read.decorator (s.take 1))
    else if bindingWords.contains s.word then read (.items closer) s.takeWord
    else read (.items closer) ((read .item s).advanceFrom s)

def declarators (read : Reader) (s : Scan) : Scan :=
  let after := read .item s
  let next := after.toOperator
  if next.peek? = some ',' then read .declarators (next.take 1) else after

def objectMembers (read : Reader) (s : Scan) : Scan :=
  let s := s.toOperand
  let more := read .objectMembers
  match s.peek? with
  | none => s
  | some '\x7d' => s
  | some '\'' => more (s.takeString none)
  | some '"' => more (s.takeString none)
  | some '[' => more (read.items ']' s)
  | some '(' => more (read.annotation (read.items ')' s))
  | some '\x7b' => more (read.block s)
  | some '<' => more (read.typeItems '>' s)
  | some ':' => more (read.expression (s.take 1))
  | some '=' => more (read.expression (s.take 1))
  | some '.' => more (read.expression (s.take 1))
  | some _ => more (s.takeWord.advanceFrom s)

def classMembers (read : Reader) (s : Scan) : Scan :=
  let s := s.toOperand
  let more := read .classMembers
  match s.peek? with
  | none => s
  | some '\x7d' => s
  | some '\'' => more (s.takeString none)
  | some '"' => more (s.takeString none)
  | some '[' => more (read.items ']' s)
  | some '(' => more (read.items ')' s)
  | some '\x7b' => more (read.block s)
  | some '<' => more (read.typeItems '>' s)
  | some ':' => more (read.typeOf (s.take 1))
  | some '=' => more (read.expression (s.take 1))
  | some '@' => more (read.decorator (s.take 1))
  | some _ => more (s.takeWord.advanceFrom s)

def template (read : Reader) (types : Bool) (s : Scan) : Scan :=
  let s := s.take (Outline.templateLength s.rest)
  if s.peek? = some '$' then
    let goal := if types then Goal.typeItems '\x7d' else Goal.items '\x7d'
    let after := read.between 2 goal '\x7d' s
    read (.template types) (after.advanceFrom s)
  else s

end Step

end Relink.Source
