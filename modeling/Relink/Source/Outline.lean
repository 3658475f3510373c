import Relink.Source.Outline.Markup
import Relink.Source.Outline.Statement

namespace Relink.Source

def step (read : Reader) : Goal → Scan → Scan
  | .statements => Step.statements read
  | .declarators => Step.declarators read
  | .item => Step.item read
  | .items closer => Step.items read closer
  | .operand mode => Step.operand read mode
  | .operator mode => Step.operator read mode
  | .objectMembers => Step.objectMembers read
  | .classMembers => Step.classMembers read
  | .template types => Step.template read types
  | .importArguments => Step.importArguments read
  | .importClause => Step.importClause read
  | .type mode => Step.type read mode
  | .typeOperator mode => Step.typeOperator read mode
  | .typeItems closer => Step.typeItems read closer
  | .typeMembers => Step.typeMembers read
  | .element => Step.element read
  | .attributes => Step.attributes read
  | .content => Step.content read

def reader : Nat → Reader
  | 0 => fun _ s => s
  | depth + 1 => step (reader depth)

def readAll (read : Reader) : Nat → Scan → Scan
  | 0, s => s
  | fuel + 1, s =>
    let after := read .statements s
    match after.peek? with
    | none => after
    | some _ => readAll read fuel (after.take 1)

/-- Every step but a few in a row takes a character, so this depth is never reached. -/
def depthFor (text : Chars) : Nat := 8 * text.length + 64

def skipPreamble (s : Scan) : Scan :=
  let s := if s.peek? = some '\ufeff' then s.take 1 else s
  if s.looksAt "#!" then s.take (s.rest.takeWhile (!Outline.isLineEnd ·)).length else s

/-- A grammar to run conversions with. What is known of them holds for every grammar. -/
def outline : Grammar := fun dialect octets =>
  let text := Utf8.decodeLossy octets
  let start := skipPreamble (Scan.ofText dialect text)
  let last := readAll (reader (depthFor text)) (text.length + 1) start
  { root := ⟨.other "program", true, none, 0, Scan.octets text, last.found.reverse⟩
    broken := last.broken }

end Relink.Source
