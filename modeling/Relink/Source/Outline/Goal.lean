import Relink.Source.Outline.Scan

namespace Relink.Source

structure Mode where
  comma : Bool
  conditions : Nat
  closed : Bool

def Mode.single : Mode := ⟨false, 0, false⟩

def Mode.sequence : Mode := ⟨true, 0, false⟩

structure TypeMode where
  bounds : Nat
  conditions : Nat

def TypeMode.plain : TypeMode := ⟨0, 0⟩

inductive Goal
  | statements
  | declarators
  | item
  | items (closer : Char)
  | operand (mode : Mode)
  | operator (mode : Mode)
  | objectMembers
  | classMembers
  | template (types : Bool)
  | importArguments
  | importClause
  | type (mode : TypeMode)
  | typeOperator (mode : TypeMode)
  | typeItems (closer : Char)
  | typeMembers
  | element
  | attributes
  | content

abbrev Reader := Goal → Scan → Scan

namespace Reader

def between (read : Reader) (opening : Nat) (goal : Goal) (closer : Char) (s : Scan) : Scan :=
  (read goal (s.take opening)).close closer

def items (read : Reader) (closer : Char) (s : Scan) : Scan :=
  read.between 1 (.items closer) closer s

def typeItems (read : Reader) (closer : Char) (s : Scan) : Scan :=
  read.between 1 (.typeItems closer) closer s

def block (read : Reader) (s : Scan) : Scan := read.between 1 .statements '\x7d' s

def expression (read : Reader) (s : Scan) : Scan := read (.operand .single) s

def typeOf (read : Reader) (s : Scan) : Scan := read (.type .plain) s

def template (read : Reader) (types : Bool) (s : Scan) : Scan :=
  read.between 1 (.template types) '\x60' s

def annotation (read : Reader) (s : Scan) : Scan :=
  let next := s.toOperator
  if next.peek? = some ':' then read.typeOf (next.take 1) else s

def typeList (read : Reader) (s : Scan) : Scan :=
  let next := s.toOperator
  if next.peek? = some '<' then read.typeItems '>' next else s

def parameters (read : Reader) (s : Scan) : Scan :=
  let next := s.toOperator
  if next.peek? = some '(' then read.items ')' next else s

end Reader

end Relink.Source
