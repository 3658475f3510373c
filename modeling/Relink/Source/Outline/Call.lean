import Relink.Source.Outline.Goal

namespace Relink.Source

def argumentNode (start stop : Nat) : List Node → Node
  | [node] =>
    if node.kind == .string && node.start == start && node.stop == stop then node
    else ⟨.other "expression", true, none, start, stop, [node]⟩
  | nodes => ⟨.other "expression", true, none, start, stop, nodes⟩

def Step.importArguments (read : Reader) (s : Scan) : Scan :=
  let s := s.toOperand
  match s.peek? with
  | none => s
  | some ')' => s.take 1
  | some ',' => read .importArguments (s.take 1)
  | some _ =>
    let (nodes, after) := s.collect (read .item)
    if after.offset = s.offset then read .importArguments (s.take 1)
    else read .importArguments (after.emit (argumentNode s.offset after.tokenEnd nodes))

def Reader.importCall? (read : Reader) (s : Scan) : Option Scan :=
  let head := s.take 6
  let (types, after) := head.collect read.typeList
  let after := after.toOperator
  if after.peek? = some '(' then
    let (arguments, last) := (after.take 1).collect (read .importArguments)
    let stop := last.tokenEnd
    some (last.emit ⟨.callExpression, true, none, s.offset, stop,
      Scan.leaf .importWord true (some .function) s.offset head.offset :: types ++
        [⟨.arguments, true, some .arguments, after.offset, stop, arguments⟩]⟩)
  else none

end Relink.Source
