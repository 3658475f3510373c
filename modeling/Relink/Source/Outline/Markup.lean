import Relink.Source.Outline.Goal

namespace Relink.Source.Step

def isTagChar (c : Char) : Bool := Outline.isWordChar c || c == '-' || c == ':' || c == '.'

def takeTag (s : Scan) : Scan := s.take (s.rest.takeWhile isTagChar).length

def takeValue (s : Scan) : Scan :=
  match s.rest with
  | mark :: rest =>
    let after := s.take (2 + (rest.takeWhile (· != mark)).length)
    after.emit (Scan.leaf .string true none s.offset after.offset)
  | [] => s

def element (read : Reader) (s : Scan) : Scan :=
  let name := (s.take 1).toOperand
  if name.peek? = some '>' then read .content (name.take 1)
  else read .attributes (read.typeList (takeTag name))

def attributes (read : Reader) (s : Scan) : Scan :=
  let s := s.toOperand
  let more := read .attributes
  match s.peek? with
  | none => s
  | some '/' =>
    let last := (s.take 1).toOperand
    if last.peek? = some '>' then last.take 1 else more last
  | some '>' => read .content (s.take 1)
  | some '\x7b' => more (read.items '\x7d' s)
  | some '\'' => more (takeValue s)
  | some '"' => more (takeValue s)
  | some '<' => more (read .element s)
  | some _ => more ((takeTag s).advanceFrom s)

def content (read : Reader) (s : Scan) : Scan :=
  let plain := s.rest.takeWhile fun c => c != '\x7b' && c != '<'
  let s := s.take plain.length
  match s.peek? with
  | none => s
  | some '\x7b' => read .content ((read.items '\x7d' s).advanceFrom s)
  | some _ =>
    let slash := (s.take 1).toOperand
    if slash.peek? = some '/' then
      slash.take ((slash.rest.takeWhile (· != '>')).length + 1)
    else read .content ((read .element s).advanceFrom s)

end Relink.Source.Step
