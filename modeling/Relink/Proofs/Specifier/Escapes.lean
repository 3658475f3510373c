import Relink.Proofs.Path.Absolute
import Relink.Proofs.Specifier.Denotation
import Relink.Storage.Memory

/-!
Backslashes in a literal. What is written for a literal has one before each backslash and each mark,
but what is between the marks of a literal is looked up with all its backslashes. The two lead to
one path where no backslash is left once the dots are collapsed.
-/

namespace Relink

open Path.Posix

structure Text.Sheds (text other : Text) : Prop where
  count_le : other.count (.char '\\') ≤ text.count (.char '\\')
  eq_of_count : text.count (.char '\\') = other.count (.char '\\') → text = other

namespace Text.Sheds

variable {text other rest rest' : Text}

theorem refl (text : Text) : Sheds text text := ⟨Nat.le_refl _, fun _ => rfl⟩

theorem append (h : Sheds text other) (hrest : Sheds rest rest') :
    Sheds (text ++ rest) (other ++ rest') := by
  have hle := h.count_le
  have hle' := hrest.count_le
  constructor
  · rw [List.count_append, List.count_append]
    exact Nat.add_le_add hle hle'
  · intro hcount
    rw [List.count_append, List.count_append] at hcount
    rw [h.eq_of_count (by omega), hrest.eq_of_count (by omega)]

theorem cons (c : CodePoint) (h : Sheds text other) : Sheds (c :: text) (c :: other) :=
  (refl [c]).append h

theorem joinWith (separator : Text) {parts parts' : List Text}
    (h : List.Forall₂ Sheds parts parts') :
    Sheds (Text.joinWith separator parts) (Text.joinWith separator parts') := by
  unfold Text.joinWith
  induction h with
  | nil => exact refl []
  | cons hpart hparts ih =>
    cases hparts with
    | nil => simpa using hpart
    | cons =>
      rw [List.intercalate_cons_cons, List.intercalate_cons_cons]
      exact (hpart.append (refl separator)).append ih

end Text.Sheds

namespace Literal.Spells

variable {mark : CodePoint} {body text : Text}

theorem sheds (h : Spells mark body text) : Text.Sheds body text := by
  induction h with
  | nil => exact .refl []
  | plain _ _ _ ih => exact ih.cons _
  | @escaped c body text _ _ ih =>
    have hlt : (c :: text).count (.char '\\') < (.char '\\' :: c :: body).count (.char '\\') := by
      rw [List.count_cons_self]
      exact Nat.lt_succ_of_le (ih.cons c).count_le
    exact ⟨Nat.le_of_lt hlt, fun heq => absurd heq (Nat.ne_of_gt hlt)⟩

theorem eq_of_not_mem (h : Spells mark body text) (hbody : .char '\\' ∉ body) : body = text := by
  induction h with
  | nil => rfl
  | plain _ _ _ ih => rw [ih fun hmem => hbody (List.mem_cons_of_mem _ hmem)]
  | escaped => exact absurd List.mem_cons_self hbody

theorem eq_of_plain (h : Spells mark body text) (htext : ∀ c ∈ text, c ≠ '\\' ∧ isMark c = false) :
    body = text := by
  induction h with
  | nil => rfl
  | plain _ _ _ ih => rw [ih (List.forall_mem_cons.1 htext).2]
  | escaped h =>
    obtain ⟨hbackslash, hother⟩ := (List.forall_mem_cons.1 htext).1
    obtain rfl | h := h
    · exact absurd rfl hbackslash
    · rw [h] at hother
      cases hother

theorem isName (h : Spells mark body text) : body = text ∨ Path.IsName body ∧ Path.IsName text := by
  obtain rfl | rfl | rfl | htext := Path.isName_cases text
  · exact .inl (h.eq_of_plain (by simp [isMark]))
  · exact .inl (h.eq_of_plain (by simp [isMark]))
  · exact .inl (h.eq_of_plain (by simp [isMark]))
  · obtain rfl | rfl | rfl | hbody := Path.isName_cases body
    · exact .inl (h.eq_of_not_mem (by decide))
    · exact .inl (h.eq_of_not_mem (by decide))
    · exact .inl (h.eq_of_not_mem (by decide))
    · exact .inr ⟨hbody, htext⟩

theorem forall₂_modifyHead {f g : Text → Text}
    (hfg : ∀ {a b}, Spells mark a b → Spells mark (f a) (g b)) {parts parts' : List Text}
    (h : List.Forall₂ (Spells mark) parts parts') :
    List.Forall₂ (Spells mark) (parts.modifyHead f) (parts'.modifyHead g) := by
  cases h with
  | nil => exact .nil
  | cons hpart hparts => exact .cons (hfg hpart) hparts

theorem components (h : Spells mark body text) :
    List.Forall₂ (Spells mark) (components body) (components text) := by
  unfold Path.Posix.components
  induction h with
  | nil => exact .cons .nil .nil
  | @plain c body text hbackslash hmark _ ih =>
    rw [List.splitOn_cons_eq_if_modifyHead, List.splitOn_cons_eq_if_modifyHead]
    split
    · exact .cons .nil ih
    · exact forall₂_modifyHead (.plain hbackslash hmark) ih
  | @escaped c body text hc _ ih =>
    have hslash : ¬(c == '/') = true := by
      rw [beq_iff_eq]
      rintro rfl
      revert hc
      decide
    rw [List.splitOn_cons_eq_if_modifyHead, if_neg (by decide), List.splitOn_cons_eq_if_modifyHead,
      if_neg hslash, List.modifyHead_modifyHead, List.splitOn_cons_eq_if_modifyHead, if_neg hslash]
    exact forall₂_modifyHead (.escaped hc) ih

theorem led (h : Spells mark body text) (hled : ("." : Text) <+: text) : ("." : Text) <+: body := by
  obtain ⟨rest, rfl⟩ := hled
  cases h with
  | plain => exact ⟨_, rfl⟩
  | escaped h => exact absurd h (by decide)

theorem sheds_follow (h : Spells mark body text) (start : Location) :
    Text.Sheds (start.follow body).text (start.follow text).text := by
  have hstart : List.Forall₂ (fun a b => a = b ∨ Spells mark a b) start.names.reverse
      start.names.reverse := List.forall₂_same.2 fun _ _ => .inl rfl
  have hcomponents : List.Forall₂ (fun a b => a = b ∨ Spells mark a b) (Path.Posix.components body)
      (Path.Posix.components text) := h.components.imp fun _ _ h => .inr h
  have hnames := Path.forall₂_foldl_push (fun h => h.elim .inl isName) hcomponents hstart
  refine (Text.Sheds.joinWith ['/'] ((List.forall₂_reverse_iff.2 hnames).imp ?_)).cons '/'
  rintro a b (rfl | h)
  · exact .refl a
  · exact h.sheds

end Literal.Spells

namespace Specifier

variable {setting : Setting} {context : FileContext} {specifier : Text}

def rewritten (setting : Setting) (context : FileContext) (specifier : Text) : Text :=
  let candidate := setting.flavour.normalize (setting.flavour.join context.directory specifier)
  relativeTo setting
    (Resolution.resolve setting.flavour setting.storage candidate context.extension).path
    context.directory

theorem reads_rewrite {raw : Text} (hled : ("." : Text) <+: Literal.unquote raw) :
    Literal.Reads (rewrite setting context raw)
      (rewritten setting context (Literal.unquote raw)) := by
  have hrewrite : rewrite setting context raw = Literal.quote [Literal.markOf raw]
      (rewritten setting context (Literal.unquote raw)) := by
    rw [rewrite, target?, candidate?, classify_relative hled]
    rfl
  rw [hrewrite]
  exact Literal.reads_quote (Literal.isMark_markOf raw) _

theorem isAbsolute_of_led (h : ("." : Text) <+: specifier) : isAbsolute specifier = false := by
  obtain ⟨rest, rfl⟩ := h
  rfl

theorem exists_rewritten_eq (posix : setting.flavour = .posix)
    (single : IsSingleRooted context.directory) (hled : ("." : Text) <+: specifier) :
    ∃ target : Location, rewritten setting context specifier =
        dotted ((Location.top.follow context.directory).wayTo target) ∧
      target.text.count (.char '\\') =
        ((Location.top.follow context.directory).follow specifier).text.count (.char '\\') := by
  have hcandidate := single.normalize_join (isAbsolute_of_led hled)
  generalize (Location.top.follow context.directory).follow specifier = location at hcandidate ⊢
  have houtcome := @Resolution.resolve_outcome .posix setting.storage context.extension
    location.text
  obtain ⟨target, htarget⟩ := houtcome.exists_path_eq
  refine ⟨target, ?_, htarget ▸ houtcome.count_path⟩
  simp only [rewritten, posix, Flavour.normalize, Flavour.join, hcandidate, htarget, relativeTo,
    Flavour.relative?, single.relative?_eq, Flavour.forwardSlashes]

/-- A literal is rewritten as what stands between its marks, and so as the text that it reads as
exactly where the two lead to one path. -/
theorem reads_rewrite_iff {raw text : Text} (posix : setting.flavour = .posix)
    (single : IsSingleRooted context.directory) (reads : Literal.Reads raw text)
    (led : ("." : Text) <+: text) :
    Literal.Reads (rewrite setting context raw)
      (rewritten setting context (Literal.unquote raw)) ∧
    (Literal.Reads (rewrite setting context raw) (rewritten setting context text) ↔
      normalize (join context.directory (Literal.unquote raw)) =
        normalize (join context.directory text)) := by
  obtain ⟨mark, spells⟩ := reads.exists_spells
  have hled := spells.led led
  have hrewrite : Literal.Reads (rewrite setting context raw)
      (rewritten setting context (Literal.unquote raw)) := reads_rewrite hled
  refine ⟨hrewrite, fun hreads => ?_, fun hpath => ?_⟩
  -- Resolving keeps the backslashes, so paths with more of them are not resolved to the same path.
  · obtain ⟨target, htarget, hcount⟩ := exists_rewritten_eq posix single hled
    obtain ⟨other, hother, hcount'⟩ := exists_rewritten_eq posix single led
    have hsame := hrewrite.unique hreads
    rw [htarget, hother] at hsame
    have htext : target.text = other.text := by
      rw [← normalize_join_dotted (Location.top.follow context.directory) target, hsame,
        normalize_join_dotted]
    rw [single.normalize_join (isAbsolute_of_led hled),
      single.normalize_join (isAbsolute_of_led led)]
    refine (spells.sheds_follow _).eq_of_count ?_
    rw [← hcount, ← hcount', htext]
  · have hsame : rewritten setting context (Literal.unquote raw) =
        rewritten setting context text := by
      simp only [rewritten, posix, Flavour.normalize, Flavour.join, hpath]
    rwa [hsame] at hrewrite

def quoteMemory : Memory := ⟨[("/p/it's.ts", ""), ("/p/a.ts", "")], [], [], []⟩

def quoteSetting : Setting := ⟨.posix, quoteMemory.storage, "/p"⟩

def quoteContext : FileContext := ⟨"/p/x.ts", "/p", ⟨[]⟩, .js⟩

theorem quoteContext_single : IsSingleRooted quoteContext.directory := by
  unfold IsSingleRooted
  decide

theorem reads_rewrite_iff_collapsed :
    Literal.Reads "'./it\\'s/../a'" "./it's/../a" ∧
    Literal.Reads (rewrite quoteSetting quoteContext "'./it\\'s/../a'")
      (rewritten quoteSetting quoteContext "./it's/../a") :=
  have posix : quoteSetting.flavour = .posix := rfl
  have reads : Literal.Reads "'./it\\'s/../a'" "./it's/../a" :=
    Literal.reads_quote rfl "./it's/../a"
  ⟨reads, (reads_rewrite_iff posix quoteContext_single reads ⟨_, rfl⟩).2.2 (by decide)⟩

/-- A file with a quote mark in its name is not found, and its specifier gets another backslash. -/
theorem not_reads_rewrite_escaped :
    Literal.Reads "'./it\\'s'" "./it's" ∧ IsSingleRooted quoteContext.directory ∧
    rewritten quoteSetting quoteContext "./it's" = "./it's.js" ∧
    rewrite quoteSetting quoteContext "'./it\\'s'" = "'./it\\\\\\'s'" ∧
    ¬Literal.Reads (rewrite quoteSetting quoteContext "'./it\\'s'")
      (rewritten quoteSetting quoteContext "./it's") := by
  refine ⟨Literal.reads_quote rfl "./it's", quoteContext_single, by decide, by decide, ?_⟩
  intro h
  exact absurd h.decode_eq (by decide)

end Specifier

end Relink
