import Mathlib.Data.List.Chain
import Relink.Proofs.Json.Token

/-!
Documents of JSON as sequences of tokens, and the texts that spell them: between the tokens stand
white space and comments, and a comma more may stand in front of a closing bracket.
-/

namespace Relink.Json

inductive Phrase
  | value (value : Json)
  | items (items : List Json)
  | members (entries : List (Text × Json))

/-- The tokens of a value, of the items of an array, and of the members of an object. The last of
two members with one name counts. -/
inductive Spells : Phrase → List Token → Prop
  | null : Spells (.value .null) [.null]
  | bool (value : Bool) : Spells (.value (.bool value)) [.bool value]
  | number (numeral : Numeral) : Spells (.value (.number numeral.value)) [.number numeral]
  | string (pieces : List Piece) :
      Spells (.value (.string (Piece.decode pieces))) [.string pieces]
  | emptyArray : Spells (.value (.array [])) [.openArray, .closeArray]
  | array {items : List Json} {tokens : List Token} (h : Spells (.items items) tokens) :
      Spells (.value (.array items)) (.openArray :: tokens ++ [.closeArray])
  | emptyObject : Spells (.value (.object [])) [.openObject, .closeObject]
  | object {entries : List (Text × Json)} {tokens : List Token}
      (h : Spells (.members entries) tokens) :
      Spells (.value (.object (Fields.ofList entries))) (.openObject :: tokens ++ [.closeObject])
  | lastItem {item : Json} {tokens : List Token} (h : Spells (.value item) tokens) :
      Spells (.items [item]) tokens
  | item {item : Json} {items : List Json} {tokens more : List Token}
      (h : Spells (.value item) tokens) (hmore : Spells (.items items) more) :
      Spells (.items (item :: items)) (tokens ++ .comma :: more)
  | lastMember (name : List Piece) {value : Json} {tokens : List Token}
      (h : Spells (.value value) tokens) :
      Spells (.members [(Piece.decode name, value)]) (.string name :: .colon :: tokens)
  | member (name : List Piece) {value : Json} {entries : List (Text × Json)}
      {tokens more : List Token} (h : Spells (.value value) tokens)
      (hmore : Spells (.members entries) more) :
      Spells (.members ((Piece.decode name, value) :: entries))
        (.string name :: .colon :: tokens ++ .comma :: more)

def Token.Precedes (before after : Token) : Prop := before = .comma → ¬after.Closes

structure Orderly (tokens : List Token) : Prop where
  chain : tokens.IsChain Token.Precedes
  ne : tokens ≠ []
  head : ∀ token ∈ tokens.head?, ¬token.Closes
  last : ∀ token ∈ tokens.getLast?, token ≠ .comma

namespace Orderly

variable {token : Token} {tokens more : List Token}

theorem singleton (hcloses : ¬token.Closes) (hcomma : token ≠ .comma) : Orderly [token] where
  chain := .singleton token
  ne := List.cons_ne_nil _ _
  head := by simpa using hcloses
  last := by simpa using hcomma

theorem cons (h : Orderly tokens) (hcloses : ¬token.Closes) (hcomma : token ≠ .comma) :
    Orderly (token :: tokens) where
  chain := List.isChain_cons.2 ⟨fun _ _ heq => absurd heq hcomma, h.chain⟩
  ne := List.cons_ne_nil _ _
  head := by simpa using hcloses
  last := by
    rw [List.getLast?_cons_of_ne_nil h.ne]
    exact h.last

theorem concat (h : Orderly tokens) (hcomma : token ≠ .comma) : Orderly (tokens ++ [token]) where
  chain := List.isChain_append.2
    ⟨h.chain, .singleton token, fun before hbefore _ _ heq => absurd heq (h.last before hbefore)⟩
  ne := by simp
  head := by
    rw [List.head?_append_of_ne_nil _ h.ne]
    exact h.head
  last := by simpa using hcomma

theorem append_comma (h : Orderly tokens) (hmore : Orderly more) :
    Orderly (tokens ++ .comma :: more) where
  chain := List.isChain_append.2
    ⟨h.chain, List.isChain_cons.2 ⟨fun after hafter _ => hmore.head after hafter, hmore.chain⟩,
      fun before hbefore _ _ heq => absurd heq (h.last before hbefore)⟩
  ne := by simp
  head := by
    rw [List.head?_append_of_ne_nil _ h.ne]
    exact h.head
  last := by
    rw [List.getLast?_append_of_ne_nil _ (List.cons_ne_nil _ _),
      List.getLast?_cons_of_ne_nil hmore.ne]
    exact hmore.last

end Orderly

theorem Spells.orderly {phrase : Phrase} {tokens : List Token} (h : Spells phrase tokens) :
    Orderly tokens := by
  induction h with
  | null => exact .singleton (by simp [Token.Closes]) (by simp)
  | bool value => exact .singleton (by simp [Token.Closes]) (by simp)
  | number numeral => exact .singleton (by simp [Token.Closes]) (by simp)
  | string pieces => exact .singleton (by simp [Token.Closes]) (by simp)
  | emptyArray =>
    exact (Orderly.singleton (by simp [Token.Closes]) (by simp)).concat (by simp)
  | emptyObject =>
    exact (Orderly.singleton (by simp [Token.Closes]) (by simp)).concat (by simp)
  | array _ ih => exact (ih.cons (by simp [Token.Closes]) (by simp)).concat (by simp)
  | object _ ih => exact (ih.cons (by simp [Token.Closes]) (by simp)).concat (by simp)
  | lastItem _ ih => exact ih
  | item _ _ ih ihmore => exact ih.append_comma ihmore
  | lastMember name _ ih =>
    exact (ih.cons (by simp [Token.Closes]) (by simp)).cons (by simp [Token.Closes]) (by simp)
  | member name _ _ ih ihmore =>
    have hcolon := ih.cons (show ¬Token.colon.Closes by simp [Token.Closes]) (by simp)
    have hname := hcolon.cons (show ¬(Token.string name).Closes by simp [Token.Closes]) (by simp)
    exact hname.append_comma ihmore

structure LineComment where
  body : Text
  oneLine : .char '\n' ∉ body

def LineComment.text (comment : LineComment) : Text := '/' :: '/' :: comment.body

structure BlockComment where
  body : Text
  unclosed : ¬("*/" : Text) <:+: body

def BlockComment.text (comment : BlockComment) : Text :=
  .char '/' :: .char '*' :: comment.body ++ [.char '*', .char '/']

structure Space where
  char : CodePoint
  isSpace : isSpace char = true

inductive Filler
  | space (c : Space)
  | line (comment : LineComment)
  | block (comment : BlockComment)

abbrev Gap := List Filler

namespace Gap

def text (gap : Gap) : Text :=
  gap.flatMap fun
    | .space c => [c.char]
    | .line comment => comment.text ++ [.char '\n']
    | .block comment => comment.text

def blanks (gap : Gap) : Text :=
  gap.flatMap fun
    | .space c => [c.char]
    | .line _ => ['\n']
    | .block _ => []

theorem isSpace_blanks (gap : Gap) : ∀ c ∈ gap.blanks, isSpace c = true := by
  refine List.forall_mem_flatMap.2 ?_
  intro filler _
  cases filler with
  | space c => exact List.forall_mem_singleton.2 c.isSpace
  | line comment => exact List.forall_mem_singleton.2 rfl
  | block comment => simp

end Gap

/-- A token with what stands in front of it. -/
structure Slot where
  gap : Gap
  /-- What follows a comma that is one too many, if there is such a comma behind the gap. -/
  comma : Option Gap
  token : Token

namespace Slot

def text (slot : Slot) : Text :=
  slot.gap.text ++ (slot.comma.map fun gap => .char ',' :: gap.text).getD [] ++ slot.token.text

def strict (slot : Slot) : Text :=
  slot.gap.blanks ++ (slot.comma.map Gap.blanks).getD [] ++ slot.token.text

/-- A comma too many may stand in front of a closing bracket that closes something which is not
empty. -/
def Follows (before after : Slot) : Prop :=
  after.comma.isSome → after.token.Closes ∧ ¬before.token.Opens

end Slot

/-- Tokens with what stands between them, and behind the last. The text may end in a line
comment. -/
structure Document where
  slots : List Slot
  last : Gap
  unended : Option LineComment
  first : ∀ slot, slots.head? = some slot → slot.comma = none
  follows : slots.IsChain Slot.Follows

namespace Document

def tokens (document : Document) : List Token := document.slots.map Slot.token

def text (document : Document) : Text :=
  document.slots.flatMap Slot.text ++ document.last.text ++
    (document.unended.map LineComment.text).getD []

def strict (document : Document) : Text :=
  document.slots.flatMap Slot.strict ++ document.last.blanks

end Document

end Relink.Json
