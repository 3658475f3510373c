import Relink.Proofs.Specifier.Characters

namespace Relink

open Path.Posix

def IsPlain (text : Text) : Prop := ∀ c ∈ text, c ≠ '\\' ∧ Literal.isMark c = false

instance (text : Text) : Decidable (IsPlain text) :=
  List.decidableBAll (fun c => c ≠ CodePoint.char '\\' ∧ Literal.isMark c = false) text

namespace IsPlain

variable {text : Text}

theorem written : Path.WrittenIn fun c => c ≠ '\\' ∧ Literal.isMark c = false where
  dots := by
    change IsPlain "./"
    decide
  index extension := by
    change IsPlain ("/index" ++ extension.text)
    cases extension <;> decide

theorem escape_eq (h : IsPlain text) {mark : CodePoint} (hmark : Literal.isMark mark = true) :
    Literal.escape mark text = text := by
  apply Literal.escape_eq_self
  intro c hc
  obtain ⟨hbackslash, hother⟩ := h c hc
  refine ⟨hbackslash, ?_⟩
  rintro rfl
  rw [hmark] at hother
  cases hother

theorem resolve {storage : Storage} {extension : Extension} {candidate : Text}
    (h : IsPlain candidate) :
    IsPlain (Resolution.resolve .posix storage candidate extension).path :=
  Text.Over.resolve written h

theorem dotted_wayTo (start : Location) {target : Location} (h : IsPlain target.text) :
    IsPlain (Specifier.dotted (start.wayTo target)) :=
  Text.Over.dotted_wayTo written start h

end IsPlain

namespace Specifier

variable {setting : Setting} {base : Text} {mapping : Fields Json} {context : FileContext}

theorem Names.isPlain (rooted : Rooted setting base mapping context) (file : IsPlain context.file)
    (hbase : IsPlain base)
    (targets : ∀ key target, (key, .array [.string target]) ∈ mapping → IsPlain target)
    {specifier candidate : Text} (h : IsPlain specifier)
    (names : Names context specifier candidate) :
    IsPlain candidate :=
  names.over IsPlain.written rooted file hbase targets h

/-- Rewriting twice is rewriting once, where no backslash and no quote mark comes in and no
directory and no source looks as if it had been emitted. -/
theorem rewrite_rewrite (rooted : Rooted setting base mapping context)
    (settled : Resolution.Settled setting.storage context.extension.text)
    (file : IsPlain context.file) (hbase : IsPlain base)
    (targets : ∀ key target, (key, .array [.string target]) ∈ mapping → IsPlain target) (raw : Text)
    (plain : IsPlain (Literal.unquote raw)) :
    rewrite setting context (rewrite setting context raw) = rewrite setting context raw := by
  obtain ⟨hforeign, hnone⟩ | ⟨candidate, hforeign, names, hsome⟩ :=
    candidate?_cases rooted (Literal.unquote raw)
  · have hraw := ((rewrite_denotes rooted raw).1 hforeign).1
    rw [hraw, hraw]
  · obtain ⟨start, hstart⟩ := rooted.exists_directory_eq
    obtain ⟨target, htarget⟩ := names.exists_resolve_eq rooted
    have htext : IsPlain target.text :=
      htarget ▸ (names.isPlain rooted file hbase targets plain).resolve
    have hfirst := rewrite_eq rooted hsome hstart htarget
    have hmark := Literal.isMark_markOf raw
    rw [(IsPlain.dotted_wayTo start htext).escape_eq hmark] at hfirst
    -- The second time, the specifier is the way to the target, which is its own resolution.
    have hunquote : Literal.unquote (rewrite setting context raw) =
        dotted (start.wayTo target) := by
      rw [hfirst, Literal.unquote_enclosed hmark]
    have hsecond : candidate? setting context (Literal.unquote (rewrite setting context raw)) =
        some target.text := by
      rw [hunquote, candidate?_relative rooted (isDotted_dotted _).led, hstart,
        normalize_join_dotted]
    have hfixed := Resolution.resolve_path_resolve settled candidate
    rw [htarget] at hfixed
    have hagain : Literal.markOf (rewrite setting context raw) = Literal.markOf raw := by
      rw [hfirst]
      exact Literal.markOf_cons hmark _
    rw [rewrite_eq rooted hsecond hstart hfixed, hagain,
      (IsPlain.dotted_wayTo start htext).escape_eq hmark, hfirst]

theorem libraryStorage_entry? (path : Text) : libraryStorage.entry? path =
    if path = "/p/lib" then some .directory
    else if path = "/p/lib/a.ts" then some .file else none := rfl

theorem libraryStorage_isDirectory {path : Text} (h : path ≠ "/p/lib") :
    libraryStorage.isDirectory path = false := by
  rw [Storage.isDirectory, libraryStorage_entry?, if_neg h]
  split <;> rfl

theorem libraryStorage_isFile {path : Text} (h : path ≠ "/p/lib/a.ts") :
    libraryStorage.isFile path = false := by
  rw [Storage.isFile, libraryStorage_entry?, if_neg h]
  split <;> rfl

theorem libraryStorage_settled : Resolution.Settled libraryStorage ".js" where
  noDirectory path h := libraryStorage_isDirectory fun heq => by
    subst heq
    revert h
    decide
  noTs path h := libraryStorage_isFile fun heq => by
    subst heq
    revert h
    decide
  noTsx path h := libraryStorage_isFile fun heq => by
    subst heq
    revert h
    decide

theorem library_isPlain : IsPlain libraryContext.file ∧ IsPlain "/p" ∧
    (∀ key target, (key, .array [.string target]) ∈ libraryMapping → IsPlain target) ∧
    IsPlain (Literal.unquote "'@lib/a'") := by
  refine ⟨by decide, by decide, ?_, by decide⟩
  intro key target h
  cases List.mem_singleton.1 h
  decide

theorem rewrite_rewrite_library :
    Rooted librarySetting "/p" libraryMapping libraryContext ∧
    Resolution.Settled libraryStorage ".js" ∧ IsPlain libraryContext.file ∧ IsPlain "/p" ∧
    (∀ key target, (key, .array [.string target]) ∈ libraryMapping → IsPlain target) ∧
    IsPlain (Literal.unquote "'@lib/a'") ∧
    rewrite librarySetting libraryContext (rewrite librarySetting libraryContext "'@lib/a'") =
      rewrite librarySetting libraryContext "'@lib/a'" := by
  obtain ⟨file, base, targets, plain⟩ := library_isPlain
  exact ⟨libraryContext_rooted, libraryStorage_settled, file, base, targets, plain,
    rewrite_rewrite libraryContext_rooted libraryStorage_settled file base targets _ plain⟩

end Specifier

end Relink
