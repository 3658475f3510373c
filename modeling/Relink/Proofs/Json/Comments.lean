import Relink.Proofs.Json.Reading
import Relink.Proofs.Json.Stripping

namespace Relink.Json

open Relaxed

namespace Gap

def bare (gap : Gap) : Gap :=
  gap.flatMap fun
    | .space c => [.space c]
    | .line _ => [.space ⟨'\n', rfl⟩]
    | .block _ => []

theorem text_append (a b : Gap) : Gap.text (a ++ b) = a.text ++ b.text := List.flatMap_append

theorem blanks_append (a b : Gap) : Gap.blanks (a ++ b) = a.blanks ++ b.blanks :=
  List.flatMap_append

@[simp] theorem text_bare (gap : Gap) : gap.bare.text = gap.blanks := by
  induction gap with
  | nil => rfl
  | cons filler gap ih => cases filler <;> simpa [text, bare, blanks] using ih

@[simp] theorem blanks_bare (gap : Gap) : gap.bare.blanks = gap.blanks := by
  induction gap with
  | nil => rfl
  | cons filler gap ih => cases filler <;> simpa [bare, blanks] using ih

end Gap

namespace Slot

def bare (slot : Slot) : Slot where
  gap := slot.gap.bare ++ (slot.comma.map Gap.bare).getD []
  comma := none
  token := slot.token

@[simp] theorem text_bare (slot : Slot) : slot.bare.text = slot.strict := by
  cases h : slot.comma <;> simp [bare, text, strict, h, Gap.text_append]

@[simp] theorem strict_bare (slot : Slot) : slot.bare.strict = slot.strict := by
  cases h : slot.comma <;> simp [bare, strict, h, Gap.blanks_append]

end Slot

namespace Document

def bare (document : Document) : Document where
  slots := document.slots.map Slot.bare
  last := document.last.bare
  unended := none
  first slot hslot := by
    obtain ⟨slot, -, rfl⟩ := List.mem_map.1 (List.mem_of_mem_head? hslot)
    rfl
  follows := (List.isChain_map _).2 (document.follows.imp fun _ _ _ hcomma => by cases hcomma)

@[simp] theorem text_bare (document : Document) : document.bare.text = document.strict := by
  simp [bare, text, strict, List.flatMap_map]

@[simp] theorem strict_bare (document : Document) : document.bare.strict = document.strict := by
  simp [bare, strict, List.flatMap_map]

@[simp] theorem tokens_bare (document : Document) : document.bare.tokens = document.tokens := by
  rw [bare, tokens, tokens, List.map_map]
  rfl

end Document

/-- From a text that spells a document the comments and the commas too many are deleted and nothing
else, so that a strict text stays as it is, and what remains is read as the value of the
document. -/
theorem parse_toStrict {document : Document} {value : Json}
    (h : Spells (.value value) document.tokens) :
    toStrict document.text = document.strict ∧ toStrict document.strict = document.strict ∧
      parse (toStrict document.text) = .ok value := by
  have hbare : Spells (.value value) document.bare.tokens := document.tokens_bare.symm ▸ h
  have hstrict := toStrict_text h.orderly.chain
  refine ⟨hstrict, ?_, hstrict ▸ parse_strict h⟩
  simpa using toStrict_text hbare.orderly.chain

def PlainChar.slash : PlainChar := ⟨'/', by decide, by decide, by decide⟩

def PlainChar.comma : PlainChar := ⟨',', by decide, by decide, by decide⟩

def PlainChar.bracket : PlainChar := ⟨']', by decide, by decide, by decide⟩

def oneAndHalf : Numeral where
  isNegative := false
  whole := [1]
  whole_ne := by decide
  noLeadingZero := by decide
  decimals := [5]
  exponent := none

def commented : Document where
  slots := [
    ⟨[.line ⟨" \"a", by decide⟩], none, .openObject⟩,
    ⟨[.space ⟨' ', rfl⟩], none, .string [.plain .slash, .plain .slash]⟩,
    ⟨[], none, .colon⟩,
    ⟨[.block ⟨"\"/*", by decide⟩], none, .openArray⟩,
    ⟨[], none, .string [.escape .quote, .plain .comma, .plain .bracket]⟩,
    ⟨[], none, .comma⟩,
    ⟨[], none, .number oneAndHalf⟩,
    ⟨[], some [.block ⟨"", by decide⟩, .space ⟨' ', rfl⟩], .closeArray⟩,
    ⟨[.space ⟨' ', rfl⟩], some [], .closeObject⟩]
  last := [.space ⟨'\n', rfl⟩]
  unended := some ⟨"b", by decide⟩
  first := by simp
  follows := by simp [Slot.Follows, Token.Closes, Token.Opens]

theorem spells_commented : Spells (.value (.object (Fields.ofList
    [("//", .array [.string "\",]", .number (.real false 15 (-1))])]))) commented.tokens :=
  .object (.lastMember [.plain .slash, .plain .slash]
    (.array (.item (.string [.escape .quote, .plain .comma, .plain .bracket])
      (.lastItem (.number oneAndHalf)))))

theorem parse_toStrict_commented :
    commented.text =
      ("// \"a\n\x7b \"//\":/*\"/**/[\"\\\",]\",1.5,/**/ ] ,\x7d\n//b" : Text) ∧
    toStrict commented.text = ("\n\x7b \"//\":[\"\\\",]\",1.5 ] \x7d\n" : Text) ∧
    toStrict commented.strict = commented.strict ∧
    parse (toStrict commented.text) = .ok (.object (Fields.ofList
      [("//", .array [.string "\",]", .number (.real false 15 (-1))])])) := by
  obtain ⟨stripped, unchanged, value⟩ := parse_toStrict spells_commented
  exact ⟨by decide, stripped.trans (by decide), unchanged, value⟩

end Relink.Json
