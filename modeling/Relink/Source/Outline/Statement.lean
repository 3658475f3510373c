import Relink.Source.Outline.Expression

namespace Relink.Source

namespace Reader

def takeName (s : Scan) : Scan :=
  let s := s.toOperand
  if s.atString then s.takeString none
  else s.take (s.rest.takeWhile fun c => Outline.isWordChar c || c == '.').length

structure Head where
  children : List Node
  rest : Scan

def firstWord (kind : Kind) (s : Scan) : Head :=
  let word := s.takeWord
  let gap := word.gap true
  let rest := word.skip gap
  let comment :=
    if gap.comment then [Scan.leaf .comment true none word.offset rest.offset] else []
  ⟨Scan.leaf kind false none s.offset word.offset :: comment, rest⟩

def Head.keyword (head : Head) (kind : Kind) (known : Bool) : Head :=
  let s := head.rest
  let after := s.takeWord
  let node := Scan.leaf (if known then kind else .error) (!known) none s.offset after.offset
  ⟨head.children ++ [node], (if known then after else after.breakOff).toOperand⟩

def withAttributes (read : Reader) (s : Scan) : Scan :=
  let word := s.toOperator
  let brace := word.takeWord.toOperand
  if (word.word = "with" ∨ word.word = "assert") ∧ brace.peek? = some '\x7b' then
    brace.mute (read.between 1 .objectMembers '\x7d')
  else s

def finish (s : Scan) : Scan := s.close ';'

def source? (read : Reader) (s : Scan) : Option (List Node × Scan) :=
  let word := s.toOperator
  let mark := word.takeWord.toOperand
  if word.word = "from" ∧ mark.atString then
    let (nodes, after) := mark.collect (·.takeString (some .source))
    some (nodes, finish (read.withAttributes after))
  else none

def statementNode (kind : Kind) (start : Nat) (children : List Node) (s : Scan) : Scan :=
  s.emit ⟨kind, true, none, start, s.tokenEnd, children⟩

def marksTypes (s : Scan) : Bool :=
  let next := s.takeWord.toOperand
  match next.peek? with
  | some ',' => false
  | some '=' => false
  | _ => next.word != "from" || !next.takeWord.toOperand.atString

def importStatement (read : Reader) (s : Scan) : Scan :=
  let head := firstWord .importWord s
  let head :=
    if head.rest.word = "typeof" then head.keyword .typeofWord s.hasTypes
    else if head.rest.word = "type" ∧ marksTypes head.rest then head.keyword .typeWord true
    else head
  let (nodes, after) := head.rest.collect (read .importClause)
  let after := finish (read.withAttributes after)
  statementNode .importStatement s.offset (head.children ++ nodes) after

def exportAll (read : Reader) (start : Nat) (head : Head) : Scan :=
  let star := (head.rest.take 1).toOperand
  let named := if star.word = "as" then star.takeWord.mute takeName else star
  match read.source? named with
  | some (nodes, after) => statementNode .exportStatement start (head.children ++ nodes) after
  | none => named

def exportNames (read : Reader) (start : Nat) (head : Head) : Scan :=
  let list := head.rest.mute (read.between 1 .objectMembers '\x7d')
  if list.toOperator.freshLine then list
  else
    match read.source? list with
    | some (nodes, after) => statementNode .exportStatement start (head.children ++ nodes) after
    | none => list

def exportDefault (read : Reader) (s : Scan) : Scan :=
  let value := s.toOperand
  if value.word = [] ∧ value.peek? ≠ some '@' then read (.operand .sequence) value else value

def exportStatement (read : Reader) (s : Scan) : Scan :=
  let head := firstWord (.other "export") s
  let next := head.rest
  match next.peek? with
  | some '*' => read.exportAll s.offset head
  | some '\x7b' => read.exportNames s.offset head
  | some '=' => read (.operand .sequence) (next.take 1)
  | _ =>
    if next.word = "type" then
      match next.takeWord.toOperand.peek? with
      | some '*' => read.exportAll s.offset (head.keyword .typeWord false)
      | some '\x7b' => read.exportNames s.offset (head.keyword .typeWord true)
      | _ => next
    else if next.word = "default" then read.exportDefault next.takeWord
    else if next.word = "as" then next.takeWord
    else next

def typeAlias (read : Reader) (s : Scan) : Scan :=
  let head := (read.typeList s.takeWord.toOperator.takeWord).toOperator
  if head.peek? = some '=' then read.typeOf (head.take 1) else head

def bases (read : Reader) : Nat → Scan → Scan
  | 0, s => s
  | fuel + 1, s =>
    let s := s.toOperator
    if s.word = "extends" ∨ s.peek? = some ',' then
      read.bases fuel (read.typeOf (s.take (max 1 s.word.length)))
    else s

def interface (read : Reader) (s : Scan) : Scan :=
  let head := read.typeList s.takeWord.toOperator.takeWord
  let head := (read.bases (head.rest.length + 1) head).toOperator
  if head.peek? = some '\x7b' then read.between 1 .typeMembers '\x7d' head else head

def leadsWord (s : Scan) : Bool :=
  let next := s.nextWordHere
  next ≠ [] && !Step.operatorWords.contains next

def startsAlias (s : Scan) : Bool :=
  let name := s.takeWord.toOperator
  let mark := name.takeWord.toOperator
  leadsWord s && (mark.peek? == some '=' || mark.peek? == some '<')

def headed (read : Reader) (s : Scan) : Scan := read.parameters s.takeWord

def loopHead (read : Reader) (s : Scan) : Scan :=
  let next := s.takeWord.toOperand
  read.parameters (if next.word = "await" then next.takeWord else next)

def withValue (read : Reader) (s : Scan) : Scan :=
  let value := s.takeWord.toOperand
  if value.freshLine then value else read (.operand .sequence) value

def passedWords : List Chars :=
  ["else", "do", "try", "finally", "default", "break", "continue", "debugger"]

def headedWords : List Chars := ["if", "while", "with", "switch", "catch"]

def expressionStatement (read : Reader) (s : Scan) : Scan :=
  (read (.operand .sequence) s).advanceFrom s

def wordStatement (read : Reader) (s : Scan) : Scan :=
  let word := s.word
  let next := s.takeWord.toOperand
  if word = "import" then
    if next.peek?.any fun c => "(.<".toList.contains c then read.expressionStatement s
    else read.importStatement s
  else if word = "export" then read.exportStatement s
  else if word = "function" then read.function s.takeWord
  else if word = "async" ∧ s.nextWordHere = "function" then read.function next.takeWord
  else if word = "class" then read.classRest s.takeWord
  else if word = "abstract" ∧ s.nextWordHere = "class" then read.classRest next.takeWord
  else if word = "enum" then read.classRest s.takeWord
  else if word = "const" ∨ word = "var" then
    if next.word = "enum" then next else read .declarators next
  else if (word = "let" ∨ word = "using") ∧ (leadsWord s ∨ word = "let" ∧ opensPattern next) then
    read .declarators next
  else if word = "type" ∧ startsAlias s then read.typeAlias s
  else if word = "interface" ∧ leadsWord s then read.interface s
  else if (word = "namespace" ∨ word = "module") ∧
    (leadsWord s ∨ !next.freshLine ∧ next.atString) then
    takeName s.takeWord
  else if word = "declare" ∧ leadsWord s then next
  else if headedWords.contains word then read.headed s
  else if word = "for" then read.loopHead s
  else if word = "case" then read (.operand .sequence) s.takeWord
  else if word = "return" ∨ word = "throw" then read.withValue s
  else if passedWords.contains word then s.takeWord
  else read.expressionStatement s
where
  opensPattern (s : Scan) : Bool := s.peek?.any fun c => c == '\x7b' || c == '['

end Reader

namespace Step

def importClause (read : Reader) (s : Scan) : Scan :=
  let s := s.toOperand
  let more := read .importClause
  match s.peek? with
  | none => s
  | some '\'' => s.takeString (some .source)
  | some '"' => s.takeString (some .source)
  | some '\x7b' => more (s.mute (read.between 1 .objectMembers '\x7d'))
  | some '*' => more (s.take 1)
  | some ',' => more (s.take 1)
  | some '=' => read (.operand .sequence) (s.take 1)
  | some _ => if s.word = [] then s else more s.takeWord

def statements (read : Reader) (s : Scan) : Scan :=
  let s := s.toOperand
  let more := read .statements
  match s.peek? with
  | none => s
  | some '\x7d' => s
  | some '\x7b' => more (read.block s)
  | some '@' => more (read.decorator (s.take 1))
  | some c =>
    if ";:,)]".toList.contains c then more (s.take 1)
    else if s.word = [] then more (read.expressionStatement s)
    else more ((read.wordStatement s).advanceFrom s)

end Step

end Relink.Source
