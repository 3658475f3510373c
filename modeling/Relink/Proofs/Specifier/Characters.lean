import Relink.Proofs.Specifier.Denotation

namespace Relink

open Path.Posix

def Text.Over (kind : CodePoint → Prop) (text : Text) : Prop := ∀ c ∈ text, kind c

structure Path.WrittenIn (kind : CodePoint → Prop) : Prop where
  dots : Text.Over kind "./"
  index : ∀ extension : Extension, Text.Over kind ("/index" ++ extension.text)

namespace Text.Over

variable {kind : CodePoint → Prop} {text other path more : Text}

theorem of_subset (h : Over kind text) (hsubset : other ⊆ text) : Over kind other :=
  fun c hc => h c (hsubset hc)

theorem append (h : Over kind text) (h' : Over kind other) : Over kind (text ++ other) := by
  intro c hc
  obtain hc | hc := List.mem_append.1 hc
  · exact h c hc
  · exact h' c hc

theorem stripWildcard (h : Over kind text) : Over kind (Alias.stripWildcard text) :=
  h.of_subset (Alias.stripWildcard_subset text)

variable (written : Path.WrittenIn kind)

include written

theorem join (h : Over kind path) (h' : Over kind more) :
    Over kind (Path.Posix.join path more) := by
  intro c hc
  obtain hc | hc := mem_join hc
  · exact h c hc
  · obtain rfl | hc := List.mem_cons.1 hc
    · exact written.dots '/' (by decide)
    · exact h' c hc

theorem normalize (h : Over kind path) : Over kind (Path.Posix.normalize path) := by
  intro c hc
  obtain hc | hc := mem_normalize hc
  · exact h c hc
  · exact written.dots c hc

theorem resolve {storage : Storage} {extension : Extension} (h : Over kind path) :
    Over kind (Resolution.resolve .posix storage path extension).path := by
  intro c hc
  obtain hc | hc := (Resolution.resolve_outcome path).mem_path hc
  · exact h c hc
  · exact written.index extension c hc

theorem dotted_wayTo (start : Location) {target : Location} (h : Over kind target.text) :
    Over kind (Specifier.dotted (start.wayTo target)) := by
  intro c hc
  obtain hc | hc := Specifier.mem_dotted hc
  · obtain rfl | hc := Location.mem_wayTo start target hc
    · exact written.dots '.' (by decide)
    · exact h c hc
  · exact written.dots c hc

end Text.Over

variable {kind : CodePoint → Prop} {base : Text} {mapping : Fields Json}

theorem AliasTable.directory_over (written : Path.WrittenIn kind) {table : AliasTable}
    (h : build .posix base mapping = .ok table) (hbase : Text.Over kind base)
    (targets : ∀ key target, (key, .array [.string target]) ∈ mapping → Text.Over kind target) :
    ∀ entry ∈ table.entries, Text.Over kind entry.directory := by
  intro entry hentry
  obtain ⟨key, target, hmem, hdirectory⟩ := (build_spec h).2 entry hentry
  rw [hdirectory]
  exact (hbase.join written (targets key target hmem).stripWildcard).normalize written

theorem Specifier.Names.over (written : Path.WrittenIn kind) {setting : Setting}
    {context : FileContext} (rooted : Rooted setting base mapping context)
    (file : Text.Over kind context.file) (hbase : Text.Over kind base)
    (targets : ∀ key target, (key, .array [.string target]) ∈ mapping → Text.Over kind target)
    {specifier candidate : Text} (h : Text.Over kind specifier)
    (names : Names context specifier candidate) : Text.Over kind candidate := by
  cases names with
  | relative =>
    have hdirectory : Text.Over kind context.directory := by
      rw [rooted.directory_eq]
      exact file.of_subset (dirname_subset _)
    exact (hdirectory.join written h).normalize written
  | aliased hat picks =>
    have hrest := h.of_subset (picks.covers.1 ▸ List.subset_append_right _ _)
    have hdirectory := AliasTable.directory_over written rooted.built hbase targets _ picks.mem
    exact (hdirectory.append hrest).normalize written

end Relink
