import Relink.Proofs.Literal
import Relink.Specifier
import Relink.Storage.Memory

namespace Relink.Literal

open Specifier

variable {mark : CodePoint} {body text other source tail more : Text}

/-- Splits at the first mark that no backslash takes along, given the text behind an opening
mark. -/
def close (mark : CodePoint) : Text → Option (Text × Text)
  | [] => none
  | ['\\'] => none
  | '\\' :: c :: rest => (close mark rest).map fun (body, tail) => ('\\' :: c :: body, tail)
  | c :: rest =>
    if c = mark then some ([], rest)
    else (close mark rest).map fun (body, tail) => (c :: body, tail)

/-- A backslash takes along each mark in the body, and no backslash is left without a character. -/
inductive IsBody (mark : CodePoint) : Text → Prop
  | nil : IsBody mark []
  | plain {c : CodePoint} {body : Text} (hbackslash : c ≠ '\\') (hmark : c ≠ mark)
      (rest : IsBody mark body) : IsBody mark (c :: body)
  | pair (c : CodePoint) {body : Text} (rest : IsBody mark body) : IsBody mark ('\\' :: c :: body)

theorem Spells.isBody (h : Spells mark body text) : IsBody mark body := by
  induction h with
  | nil => exact .nil
  | plain hbackslash hmark _ ih => exact .plain hbackslash hmark ih
  | escaped _ _ ih => exact .pair _ ih

theorem close_cons {c : CodePoint} (hbackslash : c ≠ '\\') (rest : Text) :
    close mark (c :: rest) =
      if c = mark then some ([], rest)
      else (close mark rest).map fun (body, tail) => (c :: body, tail) := by
  rw [close.eq_def]
  split <;> simp_all

theorem IsBody.close_append (hmark : mark ≠ '\\') (h : IsBody mark body) (tail : Text) :
    close mark (body ++ mark :: tail) = some (body, tail) := by
  induction h with
  | nil => rw [List.nil_append, close_cons hmark, if_pos rfl]
  | plain hbackslash hother _ ih =>
    rw [List.cons_append, close_cons hbackslash, if_neg hother, ih]
    rfl
  | pair c _ ih =>
    rw [List.cons_append, List.cons_append, close, ih]
    rfl

theorem isBody_of_close (h : close mark source = some (body, tail)) :
    source = body ++ mark :: tail ∧ IsBody mark body := by
  fun_induction close mark source generalizing body tail with
  | case1 => cases h
  | case2 => cases h
  | case3 c rest ih =>
    obtain ⟨⟨inner, _⟩, hrest, hsplit⟩ := Option.map_eq_some_iff.1 h
    cases hsplit
    obtain ⟨rfl, hinner⟩ := ih hrest
    exact ⟨rfl, .pair c hinner⟩
  | case4 rest =>
    cases h
    exact ⟨rfl, .nil⟩
  | case5 c rest hlone hpair hother ih =>
    obtain ⟨⟨inner, _⟩, hrest, hsplit⟩ := Option.map_eq_some_iff.1 h
    cases hsplit
    have hbackslash : c ≠ '\\' := by
      intro hc
      cases rest with
      | nil => exact hlone hc rfl
      | cons d rest => exact hpair d rest hc rfl
    obtain ⟨rfl, hinner⟩ := ih hrest
    exact ⟨rfl, .plain hbackslash hother hinner⟩

theorem close_eq_some_iff (hmark : mark ≠ '\\') :
    close mark source = some (body, tail) ↔ source = body ++ mark :: tail ∧ IsBody mark body := by
  refine ⟨isBody_of_close, ?_⟩
  rintro ⟨rfl, h⟩
  exact h.close_append hmark tail

/-- The source begins with a literal of the text: read from its opening mark on, the first mark that
no backslash takes along stands right in front of the tail, and what is between the two decodes to
the text. -/
def Scans (mark : CodePoint) (source text tail : Text) : Prop :=
  ∃ rest body, source = mark :: rest ∧ close mark rest = some (body, tail) ∧ decode body = text

namespace Scans

theorem append (hmark : mark ≠ '\\') (h : Scans mark source text tail) (more : Text) :
    Scans mark (source ++ more) text (tail ++ more) := by
  obtain ⟨_, body, rfl, hclose, htext⟩ := h
  obtain ⟨rfl, hbody⟩ := (close_eq_some_iff hmark).1 hclose
  refine ⟨body ++ mark :: (tail ++ more), body, ?_, (close_eq_some_iff hmark).2 ⟨rfl, hbody⟩, htext⟩
  rw [List.cons_append, List.append_assoc, List.cons_append]

theorem unique (h : Scans mark source text tail) (h' : Scans mark source other more) :
    text = other ∧ tail = more := by
  obtain ⟨rest, body, hrest, hclose, htext⟩ := h
  obtain ⟨rest', body', hrest', hclose', hother⟩ := h'
  obtain ⟨-, rfl⟩ := List.cons.inj (hrest.symm.trans hrest')
  obtain ⟨rfl, htail⟩ := Prod.mk.inj (Option.some.inj (hclose.symm.trans hclose'))
  exact ⟨htext.symm.trans hother, htail⟩

end Scans

theorem Spells.scans (hmark : mark ≠ '\\') (h : Spells mark body text) :
    Scans mark (mark :: body ++ [mark]) text [] :=
  ⟨body ++ [mark], body, rfl, (close_eq_some_iff hmark).2 ⟨rfl, h.isBody⟩, h.decode_eq⟩

theorem scans_quote (h : isMark mark = true) (text : Text) :
    Scans mark (quote [mark] text) text [] := by
  have hmark := ne_backslash_of_isMark h
  rw [quote_eq hmark]
  exact (spells_escape h text).scans hmark

theorem quote_append_inj (h : isMark mark = true)
    (heq : quote [mark] text ++ tail = quote [mark] other ++ more) :
    text = other ∧ tail = more := by
  have hmark := ne_backslash_of_isMark h
  have hscans := (scans_quote h text).append hmark tail
  rw [heq] at hscans
  exact hscans.unique ((scans_quote h other).append hmark more)

theorem quote_injective (h : isMark mark = true) : Function.Injective (quote [mark]) :=
  fun _ _ heq => (quote_append_inj h (congrArg (· ++ []) heq)).1

variable {setting : Setting} {context : FileContext} {raw : Text} {target : Target}

theorem scans_rewrite (h : target? setting context raw = some target) (tail : Text) :
    Scans (markOf raw) (rewrite setting context raw ++ tail) (target.emitted setting context)
      tail := by
  have hmark := isMark_markOf raw
  rw [rewrite, h]
  exact (scans_quote hmark _).append (ne_backslash_of_isMark hmark) tail

/-- A written literal is closed by its last character and decodes to its text, so that no two texts
have one literal, and the source behind a specifier that is written stays outside of it. -/
theorem quote_closes {mark : CodePoint} (h : isMark mark = true) :
    (∀ text, Scans mark (quote [mark] text) text []) ∧ Function.Injective (quote [mark]) ∧
    ∀ setting context raw target, target? setting context raw = some target → markOf raw = mark →
      ∀ tail, Scans mark (rewrite setting context raw ++ tail) (target.emitted setting context)
        tail := by
  refine ⟨scans_quote h, quote_injective h, ?_⟩
  rintro setting context raw target htarget rfl
  exact scans_rewrite htarget

def markedSetting : Setting := ⟨.posix, Memory.storage ⟨[("/p/a.ts", "")], [], [], []⟩, "/p"⟩

def markedContext : FileContext := ⟨"/p/a.ts", "/p", ⟨[⟨"@lib", "/p/it's"⟩]⟩, .js⟩

def markedTarget : Target where
  specifier := "@lib/b\\\\"
  candidate := "/p/it's/b\\\\"
  resolution := Resolution.resolve .posix markedSetting.storage "/p/it's/b\\\\" .js

theorem quote_closes_aliased :
    isMark '\'' = true ∧ target? markedSetting markedContext "'@lib/b\\\\'" = some markedTarget ∧
    markedTarget.emitted markedSetting markedContext = "./it's/b\\\\" ∧
    rewrite markedSetting markedContext "'@lib/b\\\\'" = "'./it\\'s/b\\\\\\\\'" ∧
    Scans '\'' (rewrite markedSetting markedContext "'@lib/b\\\\'" ++ ("; f('x');" : Text))
      "./it's/b\\\\" "; f('x');" ∧
    Scans '\'' (quote ['\''] "it's\\") "it's\\" [] ∧ Function.Injective (quote ['\'']) := by
  have target : target? markedSetting markedContext "'@lib/b\\\\'" = some markedTarget := by decide
  have emitted : markedTarget.emitted markedSetting markedContext = "./it's/b\\\\" := by decide
  obtain ⟨scans, injective, written⟩ := @quote_closes '\'' rfl
  refine ⟨rfl, target, emitted, by decide, ?_, scans _, injective⟩
  rw [← emitted]
  exact written _ _ _ _ target rfl _

end Relink.Literal
