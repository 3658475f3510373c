import Mathlib.Data.List.TakeWhile
import Relink.Json.Relaxed
import Relink.Proofs.Json.Document

namespace Relink.Json

open Relaxed

variable {c : CodePoint} {text rest body : Text}

theorem closeString_cons {oneLine : Bool} (hquote : c ≠ '"') (hbackslash : c ≠ '\\') :
    closeString oneLine (c :: rest) =
      (closeString oneLine rest).map fun (body, rest) => (c :: body, rest) := by
  rw [closeString.eq_def]
  split <;> simp_all

theorem closeString_escape {oneLine : Bool} (hline : c ≠ '\n') :
    closeString oneLine ('\\' :: c :: rest) =
      (closeString oneLine rest).map fun (body, rest) => ('\\' :: c :: body, rest) := by
  rw [closeString, if_neg (by simp [hline])]

theorem closeString_append {oneLine : Bool} {front : Text} {tail : Text}
    (hfront : ∀ c ∈ front, c ≠ '"' ∧ c ≠ '\\') (h : closeString oneLine rest = some (body, tail)) :
    closeString oneLine (front ++ rest) = some (front ++ body, tail) := by
  induction front with
  | nil => exact h
  | cons c front ih =>
    obtain ⟨hc, hfront⟩ := List.forall_mem_cons.1 hfront
    rw [List.cons_append, closeString_cons hc.1 hc.2, ih hfront]
    rfl

theorem closeString_pieces (oneLine : Bool) (pieces : List Piece) (rest : Text) :
    closeString oneLine (pieces.flatMap Piece.text ++ .char '"' :: rest) =
      some (pieces.flatMap Piece.text ++ [.char '"'], rest) := by
  induction pieces with
  | nil => rfl
  | cons piece pieces ih =>
    rw [List.flatMap_cons, List.append_assoc, List.append_assoc]
    cases piece with
    | plain c =>
      exact closeString_append (List.forall_mem_singleton.2 ⟨c.ne_quote, c.ne_backslash⟩) ih
    | escape e =>
      rw [Piece.text, List.cons_append, List.cons_append, List.nil_append,
        closeString_escape e.mark_ne_lineFeed, ih]
      rfl
    | unit u =>
      have hdigits : ∀ c ∈ u.digits, c ≠ '"' ∧ c ≠ '\\' := by
        intro c hc
        have hnot := (u.isNumeric c hc).not_mem
        constructor <;> rintro rfl <;> exact absurd (by decide) hnot
      rw [Piece.text, List.cons_append, List.cons_append, closeString_escape (by decide),
        closeString_append hdigits ih]
      rfl

theorem stripComments_cons (hquote : c ≠ '"') (hslash : c ≠ '/') :
    stripComments (c :: rest) = c :: stripComments rest := by
  rw [stripComments.eq_def]
  split <;> simp_all

theorem stripComments_append (h : ∀ c ∈ text, c ≠ '"' ∧ c ≠ '/') :
    stripComments (text ++ rest) = text ++ stripComments rest := by
  induction text with
  | nil => rfl
  | cons c text ih =>
    obtain ⟨hc, htext⟩ := List.forall_mem_cons.1 h
    rw [List.cons_append, stripComments_cons hc.1 hc.2, ih htext, List.cons_append]

theorem stripComments_string (pieces : List Piece) (rest : Text) :
    stripComments (Token.text (.string pieces) ++ rest) =
      Token.text (.string pieces) ++ stripComments rest := by
  have hclose := closeString_pieces false pieces rest
  rw [Token.text, List.append_assoc, List.cons_append, stripComments]
  simp only [List.cons_append, List.nil_append]
  split
  · next hfound =>
    rw [hclose] at hfound
    cases hfound
    simp
  · next hfound =>
    rw [hclose] at hfound
    cases hfound

theorem LineComment.dropWhile_body (comment : LineComment) (rest : Text) :
    (comment.body ++ rest).dropWhile (· != .char '\n') = rest.dropWhile (· != .char '\n') := by
  refine List.dropWhile_append_of_pos ?_
  intro c hc
  simpa using fun heq : c = '\n' => comment.oneLine (heq ▸ hc)

theorem closeComment_body (hbody : ¬("*/" : Text) <:+: body) (rest : Text) :
    closeComment (body ++ .char '*' :: .char '/' :: rest) = some rest := by
  induction body with
  | nil => rfl
  | cons c body ih =>
    have hrest : ¬("*/" : Text) <:+: body := fun h => hbody (List.infix_cons h)
    rw [List.cons_append, closeComment.eq_def]
    split
    · next heq => simp at heq
    · next heq =>
      obtain ⟨hstar, heq⟩ := List.cons.inj heq
      cases body with
      | nil => simp at heq
      | cons d body =>
        obtain ⟨hslash, -⟩ := List.cons.inj heq
        exact absurd ⟨[], body, by rw [hstar, hslash]; rfl⟩ hbody
    · next heq =>
      obtain ⟨-, rfl⟩ := List.cons.inj heq
      exact ih hrest

theorem stripComments_line (comment : LineComment) (rest : Text) :
    stripComments (comment.text ++ .char '\n' :: rest) = .char '\n' :: stripComments rest := by
  rw [LineComment.text, List.cons_append, List.cons_append, stripComments, comment.dropWhile_body]
  exact stripComments_cons (by decide) (by decide)

theorem stripComments_unended (comment : LineComment) : stripComments comment.text = [] := by
  have hdrop := comment.dropWhile_body []
  rw [List.append_nil] at hdrop
  rw [LineComment.text, stripComments, hdrop, List.dropWhile_nil, stripComments]

theorem stripComments_block (comment : BlockComment) (rest : Text) :
    stripComments (comment.text ++ rest) = stripComments rest := by
  have hclose := closeComment_body comment.unclosed rest
  rw [BlockComment.text, List.append_assoc, List.cons_append, List.cons_append, stripComments]
  simp only [List.cons_append, List.nil_append]
  split
  · next hfound =>
    rw [hclose] at hfound
    cases hfound
    rfl
  · next hfound =>
    rw [hclose] at hfound
    cases hfound

theorem Space.not_mark (c : Space) : c.char ≠ '"' ∧ c.char ≠ '/' ∧ c.char ≠ ',' := by
  refine ⟨?_, ?_, ?_⟩ <;> intro heq <;> exact absurd c.isSpace (by rw [heq]; decide)

theorem stripComments_gap (gap : Gap) (rest : Text) :
    stripComments (gap.text ++ rest) = gap.blanks ++ stripComments rest := by
  induction gap with
  | nil => rfl
  | cons filler gap ih =>
    rw [Gap.text, Gap.blanks, List.flatMap_cons, List.flatMap_cons, List.append_assoc,
      List.append_assoc, ← Gap.text, ← Gap.blanks, ← ih]
    cases filler with
    | space c => exact stripComments_cons c.not_mark.1 c.not_mark.2.1
    | line comment =>
      simp only [List.append_assoc, List.cons_append, List.nil_append]
      exact stripComments_line comment _
    | block comment => exact stripComments_block comment _

theorem stripComments_token (token : Token) (rest : Text) :
    stripComments (token.text ++ rest) = token.text ++ stripComments rest := by
  by_cases hstring : ∃ pieces, token = .string pieces
  · obtain ⟨pieces, rfl⟩ := hstring
    exact stripComments_string pieces rest
  · have hmarks := token.not_mem_text fun pieces h => hstring ⟨pieces, h⟩
    exact stripComments_append fun c hc => ⟨(hmarks c hc).1, (hmarks c hc).2.1⟩

def Slot.uncommented (slot : Slot) : Text :=
  slot.gap.blanks ++ (slot.comma.map fun gap => .char ',' :: gap.blanks).getD [] ++ slot.token.text

theorem stripComments_slot (slot : Slot) (rest : Text) :
    stripComments (slot.text ++ rest) = slot.uncommented ++ stripComments rest := by
  rw [Slot.text, Slot.uncommented, List.append_assoc, List.append_assoc, stripComments_gap,
    List.append_assoc, List.append_assoc, ← stripComments_token]
  cases slot.comma with
  | none => rfl
  | some gap =>
    rw [Option.map_some, Option.map_some, Option.getD_some, Option.getD_some, List.cons_append,
      stripComments_cons (by decide) (by decide), stripComments_gap, List.cons_append]

theorem stripComments_text (document : Document) :
    stripComments document.text =
      document.slots.flatMap Slot.uncommented ++ document.last.blanks := by
  have hend : stripComments ((document.unended.map LineComment.text).getD []) = [] := by
    cases document.unended with
    | none => rw [Option.map_none, Option.getD_none, stripComments]
    | some comment => exact stripComments_unended comment
  have hlast := stripComments_gap document.last ((document.unended.map LineComment.text).getD [])
  rw [hend, List.append_nil] at hlast
  rw [Document.text, List.append_assoc]
  induction document.slots with
  | nil => exact hlast
  | cons slot slots ih =>
    rw [List.flatMap_cons, List.flatMap_cons, List.append_assoc, stripComments_slot, ih,
      List.append_assoc]

theorem stripTrailingCommas_cons (hquote : c ≠ '"') (hcomma : c ≠ ',') :
    stripTrailingCommas (c :: rest) = c :: stripTrailingCommas rest := by
  rw [stripTrailingCommas.eq_def]
  split <;> simp_all

theorem stripTrailingCommas_append (h : ∀ c ∈ text, c ≠ '"' ∧ c ≠ ',') :
    stripTrailingCommas (text ++ rest) = text ++ stripTrailingCommas rest := by
  induction text with
  | nil => rfl
  | cons c text ih =>
    obtain ⟨hc, htext⟩ := List.forall_mem_cons.1 h
    rw [List.cons_append, stripTrailingCommas_cons hc.1 hc.2, ih htext, List.cons_append]

theorem stripTrailingCommas_string (pieces : List Piece) (rest : Text) :
    stripTrailingCommas (Token.text (.string pieces) ++ rest) =
      Token.text (.string pieces) ++ stripTrailingCommas rest := by
  have hclose := closeString_pieces true pieces rest
  rw [Token.text, List.append_assoc, List.cons_append, stripTrailingCommas]
  simp only [List.cons_append, List.nil_append]
  split
  · next hfound =>
    rw [hclose] at hfound
    cases hfound
    simp
  · next hfound =>
    rw [hclose] at hfound
    cases hfound

theorem stripTrailingCommas_extra {kept tail : Text}
    (h : closingBracket? rest = some (kept, tail)) :
    stripTrailingCommas (',' :: rest) = kept ++ stripTrailingCommas tail := by
  rw [stripTrailingCommas]
  split
  · next hfound =>
    rw [h] at hfound
    cases hfound
    rfl
  · next hfound =>
    rw [h] at hfound
    cases hfound

theorem stripTrailingCommas_comma (h : closingBracket? rest = none) :
    stripTrailingCommas (',' :: rest) = .char ',' :: stripTrailingCommas rest := by
  rw [stripTrailingCommas]
  split
  · next hfound =>
    rw [h] at hfound
    cases hfound
  · rfl

theorem stripTrailingCommas_blanks (gap : Gap) (rest : Text) :
    stripTrailingCommas (gap.blanks ++ rest) = gap.blanks ++ stripTrailingCommas rest := by
  refine stripTrailingCommas_append ?_
  intro c hc
  have hmark := Space.not_mark ⟨c, gap.isSpace_blanks c hc⟩
  exact ⟨hmark.1, hmark.2.2⟩

theorem closingBracket?_append (gap : Gap) (hc : isBlank c = false) (rest : Text) :
    closingBracket? (gap.blanks ++ c :: rest) =
      if c == '\x7d' || c == ']' then some (gap.blanks ++ [c], rest) else none := by
  have hblanks : ∀ c ∈ gap.blanks, isBlank c = true := fun c hc =>
    isBlank_of_isSpace (gap.isSpace_blanks c hc)
  have hdrop : (gap.blanks ++ c :: rest).dropWhile isBlank = c :: rest := by
    rw [List.dropWhile_append_of_pos hblanks, List.dropWhile_cons_of_neg (by simp [hc])]
  have htake : (gap.blanks ++ c :: rest).takeWhile isBlank = gap.blanks := by
    rw [List.takeWhile_append_of_pos hblanks, List.takeWhile_cons_of_neg (by simp [hc]),
      List.append_nil]
  rw [closingBracket?, hdrop, htake]

theorem closingBracket?_blanks (gap : Gap) : closingBracket? gap.blanks = none := by
  have hdrop : gap.blanks.dropWhile isBlank = [] := by
    rw [List.dropWhile_eq_nil_iff]
    exact fun c hc => isBlank_of_isSpace (gap.isSpace_blanks c hc)
  rw [closingBracket?, hdrop]

theorem Token.Closes.exists_text_eq {token : Token} (h : token.Closes) :
    ∃ c, token.text = [c] ∧ isBlank c = false ∧ (c == '\x7d' || c == ']') = true := by
  obtain rfl | rfl := h
  · exact ⟨_, rfl, rfl, rfl⟩
  · exact ⟨_, rfl, rfl, rfl⟩

theorem stripTrailingCommas_token {token : Token} (h : token ≠ .comma) (rest : Text) :
    stripTrailingCommas (token.text ++ rest) = token.text ++ stripTrailingCommas rest := by
  by_cases hstring : ∃ pieces, token = .string pieces
  · obtain ⟨pieces, rfl⟩ := hstring
    exact stripTrailingCommas_string pieces rest
  · have hmarks := token.not_mem_text fun pieces h => hstring ⟨pieces, h⟩
    exact stripTrailingCommas_append fun c hc =>
      ⟨(hmarks c hc).1, fun heq => h ((hmarks c hc).2.2 heq)⟩

theorem closingBracket?_slots {slots : List Slot} {last : Gap}
    (hcloses : ∀ slot ∈ slots.head?, ¬slot.token.Closes)
    (hcomma : ∀ slot ∈ slots.head?, slot.comma = none) :
    closingBracket? (slots.flatMap Slot.uncommented ++ last.blanks) = none := by
  cases slots with
  | nil => exact closingBracket?_blanks last
  | cons slot slots =>
    obtain ⟨c, rest, htext, hblank, -, hc⟩ := slot.token.exists_text_eq
    have hbracket : ¬(c == '\x7d' || c == ']') = true := by
      intro h
      rw [Bool.or_eq_true, beq_iff_eq, beq_iff_eq] at h
      exact hcloses slot rfl (hc h)
    rw [List.flatMap_cons, Slot.uncommented, hcomma slot rfl, Option.map_none, Option.getD_none,
      List.append_nil, htext, List.append_assoc, List.append_assoc, List.cons_append,
      closingBracket?_append slot.gap hblank, if_neg hbracket]

theorem stripTrailingCommas_slot {slot : Slot} (h : slot.token ≠ .comma)
    (hextra : slot.comma.isSome → slot.token.Closes) (rest : Text) :
    stripTrailingCommas (slot.uncommented ++ rest) = slot.strict ++ stripTrailingCommas rest := by
  rw [Slot.uncommented, Slot.strict, List.append_assoc, List.append_assoc, List.append_assoc,
    List.append_assoc, stripTrailingCommas_blanks]
  congr 1
  cases hcomma : slot.comma with
  | none => exact stripTrailingCommas_token h rest
  | some gap =>
    obtain ⟨c, htext, hblank, hc⟩ := Token.Closes.exists_text_eq (hextra (by simp [hcomma]))
    have hbracket := closingBracket?_append gap hblank rest
    rw [if_pos hc] at hbracket
    simp only [Option.map_some, Option.getD_some, htext, List.cons_append, List.nil_append]
    rw [stripTrailingCommas_extra hbracket, List.append_assoc]
    rfl

theorem stripTrailingCommas_slots {slots : List Slot} (last : Gap)
    (hfirst : ∀ slot ∈ slots.head?, slot.comma.isSome → slot.token.Closes)
    (hfollows : slots.IsChain Slot.Follows)
    (hprecedes : (slots.map Slot.token).IsChain Token.Precedes) :
    stripTrailingCommas (slots.flatMap Slot.uncommented ++ last.blanks) =
      slots.flatMap Slot.strict ++ last.blanks := by
  induction slots with
  | nil =>
    have h := stripTrailingCommas_blanks last []
    rw [List.append_nil, stripTrailingCommas, List.append_nil] at h
    exact h
  | cons slot slots ih =>
    obtain ⟨hnext, hfollows⟩ := List.isChain_cons.1 hfollows
    obtain ⟨hafter, hprecedes⟩ := List.isChain_cons.1 hprecedes
    have hrest := ih (fun next hmem hsome => (hnext next hmem hsome).1) hfollows hprecedes
    rw [List.flatMap_cons, List.flatMap_cons, List.append_assoc, List.append_assoc, ← hrest]
    by_cases hcomma : slot.token = .comma
    · have hcloses : ∀ next ∈ slots.head?, ¬next.token.Closes := by
        intro next hmem
        exact hafter next.token (by simp [Option.mem_def.1 hmem]) hcomma
      have hextra : ∀ next ∈ slots.head?, next.comma = none := by
        intro next hmem
        by_contra hsome
        exact hcloses next hmem (hnext next hmem (Option.isSome_iff_ne_none.2 hsome)).1
      have hnone : slot.comma = none := by
        by_contra hsome
        have h := hfirst slot rfl (Option.isSome_iff_ne_none.2 hsome)
        simp [Token.Closes, hcomma] at h
      rw [Slot.uncommented, Slot.strict, hnone, hcomma]
      simp only [Option.map_none, Option.getD_none, List.append_nil, Token.text, List.append_assoc,
        List.cons_append, List.nil_append]
      rw [stripTrailingCommas_blanks,
        stripTrailingCommas_comma (closingBracket?_slots hcloses hextra)]
    · exact stripTrailingCommas_slot hcomma (hfirst slot rfl) _

theorem toStrict_text {document : Document}
    (h : document.tokens.IsChain Token.Precedes) : toStrict document.text = document.strict := by
  rw [toStrict, stripComments_text]
  refine stripTrailingCommas_slots document.last ?_ document.follows h
  intro slot hslot hsome
  rw [document.first slot hslot] at hsome
  cases hsome

end Relink.Json
