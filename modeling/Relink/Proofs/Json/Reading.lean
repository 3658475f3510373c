import Relink.Proofs.Except
import Relink.Proofs.Json.Document
import Relink.Proofs.Json.Number
import Relink.Proofs.Json.Quoted

namespace Relink.Json

variable {space text rest : Text} {token : Token} {tokens more : List Token} {fuel : Nat}
variable {c : CodePoint}

theorem isSpace_of_isBlank (h : isBlank c = false) : isSpace c = false := by
  cases hspace : isSpace c with
  | false => rfl
  | true =>
    rw [isBlank_of_isSpace hspace] at h
    cases h

theorem skipSpace_append (hspace : ∀ c ∈ space, isSpace c = true) (hc : isSpace c = false) :
    skipSpace (space ++ c :: rest) = c :: rest := by
  rw [skipSpace, List.dropWhile_append_of_pos hspace, List.dropWhile_cons_of_neg (by simp [hc])]

theorem skipSpace_token (hspace : ∀ c ∈ space, isSpace c = true) (token : Token) (rest : Text) :
    skipSpace (space ++ (token.text ++ rest)) = token.text ++ rest := by
  obtain ⟨c, tail, htext, hblank, -⟩ := token.exists_text_eq
  rw [htext, List.cons_append, skipSpace_append hspace (isSpace_of_isBlank hblank)]

/-- Tokens with white space in front of each. -/
inductive Laid : List Token → Text → Prop
  | nil : Laid [] []
  | cons {space text : Text} {token : Token} {tokens : List Token}
      (hspace : ∀ c ∈ space, isSpace c = true) (h : Laid tokens text) :
      Laid (token :: tokens) (space ++ (token.text ++ text))

namespace Laid

theorem exists_append (h : Laid (tokens ++ more) text) :
    ∃ front back, text = front ++ back ∧ Laid tokens front ∧ Laid more back := by
  induction tokens generalizing text with
  | nil => exact ⟨[], text, rfl, .nil, h⟩
  | cons token tokens ih =>
    cases h with
    | cons hspace h =>
      obtain ⟨front, back, rfl, hfront, hback⟩ := ih h
      exact ⟨_, back, by simp, .cons hspace hfront, hback⟩

theorem exists_cons (h : Laid (token :: tokens) text) :
    ∃ more, Laid tokens more ∧
      ∀ rest, skipSpace (text ++ rest) = token.text ++ (more ++ rest) := by
  cases h with
  | @cons space more token tokens hspace h =>
    refine ⟨more, h, ?_⟩
    intro rest
    rw [List.append_assoc, List.append_assoc, skipSpace_token hspace]

theorem skipSpace_singleton (h : Laid [token] text) (rest : Text) :
    skipSpace (text ++ rest) = token.text ++ rest := by
  obtain ⟨more, hmore, hskip⟩ := h.exists_cons
  cases hmore
  exact hskip rest

theorem exists_enclosed {opening closing : Token}
    (h : Laid (opening :: tokens ++ [closing]) text) :
    ∃ front space, Laid tokens front ∧ (∀ c ∈ space, isSpace c = true) ∧
      ∀ rest, skipSpace (text ++ rest) =
        opening.text ++ (front ++ (space ++ (closing.text ++ rest))) := by
  obtain ⟨more, hmore, hskip⟩ := exists_cons h
  obtain ⟨front, back, rfl, hfront, hback⟩ := hmore.exists_append
  cases hback with
  | @cons space _ _ _ hspace hback =>
    cases hback
    exact ⟨front, space, hfront, hspace, fun rest => by simpa using hskip rest⟩

theorem exists_comma (h : Laid (tokens ++ .comma :: more) text) :
    ∃ front space back, Laid tokens front ∧ (∀ c ∈ space, isSpace c = true) ∧ Laid more back ∧
      text = front ++ (space ++ .char ',' :: back) := by
  obtain ⟨front, back, rfl, hfront, hback⟩ := h.exists_append
  cases hback with
  | @cons space back _ _ hspace hback =>
    exact ⟨front, space, back, hfront, hspace, hback, rfl⟩

theorem head_ne (h : Laid tokens text) (orderly : Orderly tokens) (hc : c = '\x7d' ∨ c = ']')
    (rest : Text) : (skipSpace (text ++ rest)).head? ≠ some c := by
  obtain ⟨first, others, rfl⟩ := List.exists_cons_of_ne_nil orderly.ne
  obtain ⟨more, -, hskip⟩ := h.exists_cons
  obtain ⟨d, tail, htext, -, -, hd⟩ := first.exists_text_eq
  rw [hskip, htext]
  intro heq
  obtain rfl : d = c := Option.some.inj heq
  exact orderly.head first rfl (hd hc)

theorem length_le (h : Laid tokens text) : tokens.length ≤ text.length := by
  induction h with
  | nil => simp
  | @cons space text token tokens hspace h ih =>
    obtain ⟨c, tail, htext, -⟩ := token.exists_text_eq
    simp only [htext, List.length_append, List.length_cons]
    omega

end Laid

theorem endsNumber_of_head (h : ∀ c ∈ rest.head?, isSpace c = true ∨ c ∈ (",:\x7d]" : Text)) :
    EndsNumber rest := by
  have hends : ∀ c, isSpace c = true ∨ c ∈ (",:\x7d]" : Text) →
      c.isDigit = false ∧ c ≠ '.' ∧ c ≠ 'e' ∧ c ≠ 'E' := by
    intro c hc
    obtain hc | hc := hc
    · simp only [isSpace, Bool.or_eq_true, beq_iff_eq] at hc
      obtain ((rfl | rfl) | rfl) | rfl := hc <;> decide
    · simp only [String.reduceToList, List.map_cons, List.map_nil, List.mem_cons, List.not_mem_nil,
        or_false] at hc
      obtain rfl | rfl | rfl | rfl := hc <;> decide
  exact
    { noDigit := fun c hc => (hends c (h c hc)).1
      noPoint := fun c hc => (hends c (h c hc)).2.1
      noMark := fun c hc => (hends c (h c hc)).2.2 }

theorem endsNumber_append (hspace : ∀ c ∈ space, isSpace c = true) (hc : c ∈ (",:\x7d]" : Text))
    (rest : Text) : EndsNumber (space ++ c :: rest) := by
  refine endsNumber_of_head ?_
  cases space with
  | nil => exact fun d hd => .inr (Option.some.inj hd ▸ hc)
  | cons d space => exact fun e he => .inl (Option.some.inj he ▸ hspace d List.mem_cons_self)

theorem endsNumber_space (hspace : ∀ c ∈ space, isSpace c = true) : EndsNumber space :=
  endsNumber_of_head fun c hc => .inl (hspace c (List.mem_of_mem_head? hc))

theorem readWord?_null (rest : Text) :
    readWord? (Token.text .null ++ rest) = some (.null, rest) := by
  simp [readWord?, words, Token.text]

theorem readWord?_bool (value : Bool) (rest : Text) :
    readWord? (Token.text (.bool value) ++ rest) = some (.bool value, rest) := by
  cases value <;> simp [readWord?, words, Token.text]

theorem exists_digit_eq (numeral : Numeral) (rest : Text) :
    ∃ c tail, numeral.unsigned ++ rest = c :: tail ∧ c.isDigit = true := by
  obtain ⟨c, front, hmap, hc⟩ := exists_map_eq_cons numeral.whole_ne
  simp [Numeral.unsigned, hmap, hc]

theorem readWord?_number (numeral : Numeral) (rest : Text) :
    readWord? (numeral.text ++ rest) = none := by
  obtain ⟨c, tail, hunsigned, hc⟩ := exists_digit_eq numeral rest
  have hne : ∀ d : CodePoint, d.isDigit = false → d ≠ c := by
    rintro d hd rfl
    rw [hc] at hd
    cases hd
  have hn := hne 'n' rfl
  have ht := hne 't' rfl
  have hf := hne 'f' rfl
  have hN := hne 'N' rfl
  have hI := hne 'I' rfl
  have hminus := hne '-' rfl
  rw [Numeral.text, List.append_assoc, hunsigned]
  split <;> simp [readWord?, words, hn, ht, hf, hN, hI, hminus]

theorem readValue_cons (hquote : c ≠ '"') (hbrace : c ≠ '\x7b') (hbracket : c ≠ '[') (fuel : Nat) :
    readValue (fuel + 1) (c :: text) =
      match readWord? (c :: text), readNumber? (c :: text) with
      | some result, _ => .ok result
      | none, some (n, rest) => .ok (.number n, rest)
      | none, none => .error ⟨.value, c :: text⟩ := by
  rw [readValue.eq_def]
  split
  · next heq => cases heq
  next fuel' heq =>
  cases heq
  split
  · next heq => exact absurd (List.cons.inj heq).1 hquote
  · next heq => exact absurd (List.cons.inj heq).1 hbrace
  · next heq => exact absurd (List.cons.inj heq).1 hbracket
  · rfl

theorem readValue_word {token : Token} {value : Json} (h : token = .null ∨ ∃ b, token = .bool b)
    (hword : readWord? (token.text ++ rest) = some (value, rest)) (fuel : Nat) :
    readValue (fuel + 1) (token.text ++ rest) = .ok (value, rest) := by
  obtain ⟨c, tail, htext, hquote, hbrace, hbracket⟩ : ∃ c tail, token.text = c :: tail ∧
      c ≠ '"' ∧ c ≠ '\x7b' ∧ c ≠ '[' := by
    obtain rfl | ⟨_ | _, rfl⟩ := h
    · exact ⟨'n', _, rfl, by decide, by decide, by decide⟩
    · exact ⟨'f', _, rfl, by decide, by decide, by decide⟩
    · exact ⟨'t', _, rfl, by decide, by decide, by decide⟩
  rw [htext, List.cons_append] at hword ⊢
  rw [readValue_cons hquote hbrace hbracket, hword]

theorem readValue_number (numeral : Numeral) (h : EndsNumber rest) (fuel : Nat) :
    readValue (fuel + 1) (numeral.text ++ rest) = .ok (.number numeral.value, rest) := by
  have hword := readWord?_number numeral rest
  have hnumber := readNumber?_text numeral h
  have hnumeric := numeral.isNumeric
  obtain ⟨c, tail, htext, -⟩ := (Token.number numeral).exists_text_eq
  rw [Token.text] at htext
  rw [htext] at hnumeric
  have hc := (hnumeric c List.mem_cons_self).not_mem
  rw [htext, List.cons_append] at hword hnumber ⊢
  rw [readValue_cons ?_ ?_ ?_, hword, hnumber]
  all_goals
    rintro rfl
    exact absurd (by decide) hc

theorem readValue_string (pieces : List Piece) (rest : Text) (fuel : Nat) :
    readValue (fuel + 1) (Token.text (.string pieces) ++ rest) =
      .ok (.string (Piece.decode pieces), rest) := by
  have hread := readString_pieces pieces rest
  rw [Token.text, List.append_assoc, List.cons_append, readValue]
  exact congrArg (Except.map fun read => (Json.string read.1, read.2)) hread

section Steps

variable {item : Json} {items : List Json} {entries : List (Text × Json)} {after : Text}

theorem readElements_last (hitem : readValue fuel text = .ok (item, after))
    (hclose : skipSpace after = .char ']' :: rest) :
    readElements (fuel + 1) text = .ok ([item], rest) := by
  rw [readElements, hitem]
  simp only [bind, Except.bind, hclose]
  rfl

theorem readElements_cons {behind : Text} (hitem : readValue fuel text = .ok (item, after))
    (hcomma : skipSpace after = .char ',' :: behind)
    (hitems : readElements fuel (skipSpace behind) = .ok (items, rest)) :
    readElements (fuel + 1) text = .ok (item :: items, rest) := by
  rw [readElements, hitem]
  simp only [bind, Except.bind, hcomma, hitems]
  rfl

variable {name : Text} {named colon : Text}

theorem readMembers_last (hname : readString named = .ok (name, after))
    (hcolon : skipSpace after = .char ':' :: text)
    (hitem : readValue fuel (skipSpace text) = .ok (item, colon))
    (hclose : skipSpace colon = .char '\x7d' :: rest) :
    readMembers (fuel + 1) ('"' :: named) = .ok ([(name, item)], rest) := by
  rw [readMembers]
  simp only [bind, Except.bind, hname, hcolon, hitem, hclose]
  rfl

theorem readMembers_cons {behind : Text} (hname : readString named = .ok (name, after))
    (hcolon : skipSpace after = .char ':' :: text)
    (hitem : readValue fuel (skipSpace text) = .ok (item, colon))
    (hcomma : skipSpace colon = .char ',' :: behind)
    (hentries : readMembers fuel (skipSpace behind) = .ok (entries, rest)) :
    readMembers (fuel + 1) ('"' :: named) = .ok ((name, item) :: entries, rest) := by
  rw [readMembers]
  simp only [bind, Except.bind, hname, hcolon, hitem, hcomma, hentries]
  rfl

theorem readValue_array (hfirst : (skipSpace text).head? ≠ some (.char ']'))
    (hitems : readElements fuel (skipSpace text) = .ok (items, rest)) :
    readValue (fuel + 1) ('[' :: text) = .ok (.array items, rest) := by
  rw [readValue]
  split
  · next heq => simp [heq] at hfirst
  · rw [hitems]
    rfl

theorem readValue_emptyArray (h : skipSpace text = .char ']' :: rest) :
    readValue (fuel + 1) ('[' :: text) = .ok (.array [], rest) := by
  rw [readValue, h]
  rfl

theorem readValue_object (hfirst : (skipSpace text).head? ≠ some (.char '\x7d'))
    (hentries : readMembers fuel (skipSpace text) = .ok (entries, rest)) :
    readValue (fuel + 1) ('\x7b' :: text) = .ok (.object (Fields.ofList entries), rest) := by
  rw [readValue]
  split
  · next heq => simp [heq] at hfirst
  · rw [hentries]
    rfl

theorem readValue_emptyObject (h : skipSpace text = .char '\x7d' :: rest) :
    readValue (fuel + 1) ('\x7b' :: text) = .ok (.object [], rest) := by
  rw [readValue, h]
  rfl

end Steps

def Reads : Phrase → List Token → Prop
  | .value value, tokens => ∀ text rest fuel, Laid tokens text → EndsNumber rest →
      tokens.length ≤ fuel → readValue fuel (skipSpace (text ++ rest)) = .ok (value, rest)
  | .items items, tokens => ∀ text space rest fuel, Laid tokens text →
      (∀ c ∈ space, isSpace c = true) → tokens.length < fuel →
      readElements fuel (skipSpace (text ++ (space ++ .char ']' :: rest))) = .ok (items, rest)
  | .members entries, tokens => ∀ text space rest fuel, Laid tokens text →
      (∀ c ∈ space, isSpace c = true) → tokens.length < fuel →
      readMembers fuel (skipSpace (text ++ (space ++ .char '\x7d' :: rest))) = .ok (entries, rest)

theorem reads_single {value : Json}
    (h : ∀ rest fuel, EndsNumber rest →
      readValue (fuel + 1) (token.text ++ rest) = .ok (value, rest)) :
    Reads (.value value) [token] := by
  intro text rest fuel laid hends hfuel
  obtain ⟨fuel, rfl⟩ := Nat.exists_eq_add_one_of_ne_zero (Nat.ne_zero_of_lt hfuel)
  rw [laid.skipSpace_singleton]
  exact h rest fuel hends

theorem reads_empty {value : Json} {opening closing : Token}
    (h : ∀ text rest fuel, skipSpace text = closing.text ++ rest →
      readValue (fuel + 1) (opening.text ++ text) = .ok (value, rest)) :
    Reads (.value value) [opening, closing] := by
  intro text rest fuel laid _ hfuel
  obtain ⟨fuel, rfl⟩ := Nat.exists_eq_add_one_of_ne_zero (Nat.ne_zero_of_lt hfuel)
  obtain ⟨more, hmore, hskip⟩ := laid.exists_cons
  rw [hskip]
  exact h _ rest fuel (hmore.skipSpace_singleton rest)

theorem reads_enclosed {value : Json} {opening closing : Token}
    (h : ∀ front space rest fuel, Laid tokens front → (∀ c ∈ space, isSpace c = true) →
      tokens.length < fuel →
      readValue (fuel + 1) (opening.text ++ (front ++ (space ++ (closing.text ++ rest)))) =
        .ok (value, rest)) :
    Reads (.value value) (opening :: tokens ++ [closing]) := by
  intro text rest fuel laid _ hfuel
  obtain ⟨fuel, rfl⟩ := Nat.exists_eq_add_one_of_ne_zero (Nat.ne_zero_of_lt hfuel)
  obtain ⟨front, space, hfront, hspace, hskip⟩ := Laid.exists_enclosed laid
  simp only [List.length_append, List.length_cons, List.length_nil] at hfuel
  rw [hskip]
  exact h front space rest fuel hfront hspace (by omega)

theorem Spells.reads {phrase : Phrase} (h : Spells phrase tokens) : Reads phrase tokens := by
  induction h with
  | null =>
    exact reads_single fun rest fuel _ => readValue_word (.inl rfl) (readWord?_null rest) fuel
  | bool value =>
    exact reads_single fun rest fuel _ =>
      readValue_word (.inr ⟨value, rfl⟩) (readWord?_bool value rest) fuel
  | number numeral => exact reads_single fun _ fuel hends => readValue_number numeral hends fuel
  | string pieces => exact reads_single fun rest fuel _ => readValue_string pieces rest fuel
  | emptyArray => exact reads_empty fun _ _ _ => readValue_emptyArray
  | emptyObject => exact reads_empty fun _ _ _ => readValue_emptyObject
  | array h ih =>
    refine reads_enclosed fun front space rest fuel hfront hspace hfuel => ?_
    exact readValue_array (hfront.head_ne h.orderly (.inr rfl) _)
      (ih front space rest fuel hfront hspace hfuel)
  | object h ih =>
    refine reads_enclosed fun front space rest fuel hfront hspace hfuel => ?_
    exact readValue_object (hfront.head_ne h.orderly (.inl rfl) _)
      (ih front space rest fuel hfront hspace hfuel)
  | lastItem h ih =>
    intro text space rest fuel laid hspace hfuel
    obtain ⟨fuel, rfl⟩ := Nat.exists_eq_add_one_of_ne_zero (Nat.ne_zero_of_lt hfuel)
    have hends := endsNumber_append hspace (c := ']') (by decide) rest
    exact readElements_last (ih text _ fuel laid hends (by omega)) (skipSpace_append hspace rfl)
  | item h hmore ih ihmore =>
    intro text space rest fuel laid hspace hfuel
    obtain ⟨fuel, rfl⟩ := Nat.exists_eq_add_one_of_ne_zero (Nat.ne_zero_of_lt hfuel)
    obtain ⟨front, space', back, hfront, hspace', hback, rfl⟩ := laid.exists_comma
    simp only [List.length_append, List.length_cons] at hfuel
    simp only [List.append_assoc, List.cons_append]
    have hends := endsNumber_append hspace' (c := ',') (by decide)
      (back ++ (space ++ .char ']' :: rest))
    exact readElements_cons (ih front _ fuel hfront hends (by omega))
      (skipSpace_append hspace' rfl) (ihmore back space rest fuel hback hspace (by omega))
  | lastMember name h ih =>
    intro text space rest fuel laid hspace hfuel
    obtain ⟨fuel, rfl⟩ := Nat.exists_eq_add_one_of_ne_zero (Nat.ne_zero_of_lt hfuel)
    obtain ⟨behind, hbehind, hname⟩ := laid.exists_cons
    obtain ⟨front, hfront, hcolon⟩ := hbehind.exists_cons
    simp only [List.length_cons] at hfuel
    have hends := endsNumber_append hspace (c := '\x7d') (by decide) rest
    rw [hname]
    simp only [Token.text, List.append_assoc, List.cons_append, List.nil_append]
    exact readMembers_last (readString_pieces name _) (hcolon _)
      (ih front _ fuel hfront hends (by omega)) (skipSpace_append hspace rfl)
  | member name h hmore ih ihmore =>
    intro text space rest fuel laid hspace hfuel
    obtain ⟨fuel, rfl⟩ := Nat.exists_eq_add_one_of_ne_zero (Nat.ne_zero_of_lt hfuel)
    obtain ⟨behind, hbehind, hname⟩ := Laid.exists_cons laid
    obtain ⟨others, hothers, hcolon⟩ := Laid.exists_cons hbehind
    obtain ⟨front, space', back, hfront, hspace', hback, rfl⟩ := hothers.exists_comma
    simp only [List.length_append, List.length_cons] at hfuel
    have hends := endsNumber_append hspace' (c := ',') (by decide)
      (back ++ (space ++ .char '\x7d' :: rest))
    have hcolon := hcolon (space ++ .char '\x7d' :: rest)
    rw [hname]
    simp only [Token.text, List.append_assoc, List.cons_append, List.nil_append] at hcolon ⊢
    exact readMembers_cons (readString_pieces name _) hcolon
      (ih front _ fuel hfront hends (by omega)) (skipSpace_append hspace' rfl)
      (ihmore back space rest fuel hback hspace (by omega))

theorem Slot.exists_space (slot : Slot) :
    ∃ space, (∀ c ∈ space, isSpace c = true) ∧ slot.strict = space ++ slot.token.text := by
  refine ⟨_, List.forall_mem_append.2 ⟨slot.gap.isSpace_blanks, ?_⟩, rfl⟩
  cases slot.comma with
  | none => simp
  | some gap => exact gap.isSpace_blanks

theorem laid_slots (slots : List Slot) :
    Laid (slots.map Slot.token) (slots.flatMap Slot.strict) := by
  induction slots with
  | nil => exact .nil
  | cons slot slots ih =>
    obtain ⟨space, hspace, hstrict⟩ := slot.exists_space
    rw [List.flatMap_cons, hstrict, List.append_assoc]
    exact .cons hspace ih

theorem ne_mark_of_laid (h : Laid tokens text) (hne : tokens ≠ []) (rest : Text) :
    ∀ c ∈ (text ++ rest).head?, c ≠ '\ufeff' := by
  obtain ⟨token, tokens, rfl⟩ := List.exists_cons_of_ne_nil hne
  rintro c hc rfl
  cases h with
  | @cons space more _ _ hspace h =>
    cases space with
    | nil =>
      obtain ⟨d, tail, htext, -, hascii, -⟩ := token.exists_text_eq
      rw [htext] at hc
      obtain rfl : d = '\ufeff' := Option.some.inj hc
      revert hascii
      decide
    | cons d space =>
      obtain rfl : d = '\ufeff' := Option.some.inj hc
      exact absurd (hspace _ List.mem_cons_self) (by decide)

theorem parse_strict {d : Document} {value : Json} (h : Spells (.value value) d.tokens) :
    parse d.strict = .ok value := by
  have laid := laid_slots d.slots
  have hlast := d.last.isSpace_blanks
  have hfuel : d.tokens.length ≤ depthFor d.strict := by
    have hlength := laid.length_le
    rw [depthFor, Document.strict, List.length_append]
    rw [Document.tokens]
    omega
  have hread := h.reads _ _ _ laid (endsNumber_space hlast) hfuel
  have hskip : skipSpace d.last.blanks = [] := List.dropWhile_eq_nil_iff.2 hlast
  have hmark := ne_mark_of_laid laid h.orderly.ne d.last.blanks
  rw [← Document.strict] at hread hmark
  rw [parse, mapError_eq_ok]
  unfold document
  split
  · next heq =>
    rw [heq] at hmark
    exact absurd rfl (hmark _ rfl)
  · rw [hread]
    simp only [bind, Except.bind, hskip]
    rfl

end Relink.Json
