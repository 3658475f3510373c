import Relink.Text

namespace Relink.Literal

def isMark (c : CodePoint) : Bool := c == '\'' || c == '"' || c == '\x60'

def unquote (raw : Text) : Text :=
  match raw with
  | mark :: c :: rest =>
    if isMark mark && (c :: rest).getLast? == some mark then (c :: rest).dropLast else raw
  | _ => raw

def quote (mark text : Text) : Text :=
  let escaped := (text.replaceAll ['\\'] ['\\', '\\']).replaceAll mark ('\\' :: mark)
  mark ++ escaped ++ mark

/-- The mark that a literal starts with; a double quote when it starts with none. -/
def markOf (raw : Text) : CodePoint :=
  match raw with
  | mark :: _ => if isMark mark then mark else '"'
  | [] => '"'

end Relink.Literal
