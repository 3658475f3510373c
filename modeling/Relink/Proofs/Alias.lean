import Mathlib.Data.List.Forall2
import Mathlib.Tactic.SplitIfs
import Relink.Alias
import Relink.Proofs.Except
import Relink.Proofs.Path.LastComponent

namespace Relink

open Path.Posix

namespace Alias

/-- The specifier is the stem with whole segments behind it. -/
def Covers (entry : Alias) (specifier rest : Text) : Prop :=
  specifier = entry.stem ++ rest ∧ (rest = [] ∨ ("/" : Text) <+: rest)

theorem rest?_eq_some_iff {entry : Alias} {specifier rest : Text} :
    entry.rest? specifier = some rest ↔ entry.Covers specifier rest := by
  unfold rest? Covers
  constructor
  · intro h
    split_ifs at h with hstem hled
    · cases h
      exact ⟨by simp [hstem], Or.inl rfl⟩
    · obtain ⟨more, rfl⟩ := List.isPrefixOf_iff_prefix.1 hled
      cases h
      exact ⟨by simp, Or.inr ⟨more, by simp⟩⟩
  · rintro ⟨rfl, rfl | ⟨more, rfl⟩⟩
    · simp
    · rw [if_neg (by simp), if_pos (List.isPrefixOf_iff_prefix.2 ⟨more, by simp⟩)]
      simp

theorem rest?_eq_none_iff {entry : Alias} {specifier : Text} :
    entry.rest? specifier = none ↔ ∀ rest, ¬entry.Covers specifier rest := by
  rw [Option.eq_none_iff_forall_ne_some]
  exact forall_congr' fun rest => not_congr rest?_eq_some_iff

theorem stripReversed_suffix (text : Text) : stripReversed text <:+ text := by
  unfold stripReversed
  split
  · exact ⟨['*', '/'], rfl⟩
  · exact ⟨['/'], rfl⟩
  · exact List.suffix_refl text

theorem stripWildcard_spec (pattern : Text) : ∃ front wildcard ending,
    pattern = front ++ wildcard ++ ending ∧ stripWildcard pattern = front ++ ending ∧
      (ending = [] ∨ ending = [.char '\n']) := by
  unfold stripWildcard
  split
  · next rest heq =>
    obtain ⟨wildcard, hrest⟩ := stripReversed_suffix rest
    refine ⟨(stripReversed rest).reverse, wildcard.reverse, ['\n'], ?_, rfl, Or.inr rfl⟩
    rw [← List.reverse_append, hrest, ← List.reverse_cons, ← heq, List.reverse_reverse]
  · obtain ⟨wildcard, hrest⟩ := stripReversed_suffix pattern.reverse
    refine ⟨_, wildcard.reverse, [], ?_, (List.append_nil _).symm, Or.inl rfl⟩
    rw [← List.reverse_append, hrest, List.reverse_reverse, List.append_nil]

theorem stripWildcard_subset (pattern : Text) : stripWildcard pattern ⊆ pattern := by
  obtain ⟨front, wildcard, ending, hpattern, hstrip, -⟩ := stripWildcard_spec pattern
  intro c hc
  rw [hstrip] at hc
  rw [hpattern]
  simp only [List.mem_append] at hc ⊢
  tauto

theorem noShare_stripWildcard {pattern : Text} (h : ¬("//" : Text) <+: pattern) :
    ¬("//" : Text) <+: stripWildcard pattern := by
  obtain ⟨front, wildcard, ending, hpattern, hstrip, hending⟩ := stripWildcard_spec pattern
  rintro ⟨rest, hrest⟩
  rw [hstrip] at hrest
  match front with
  | [] => obtain rfl | rfl := hending <;> simp at hrest
  | [c] => obtain rfl | rfl := hending <;> simp at hrest
  | c :: d :: front =>
    obtain ⟨rfl, rfl, -⟩ : '/' = c ∧ '/' = d ∧ rest = front ++ ending := by simpa using hrest
    exact h ⟨front ++ wildcard ++ ending, hpattern.symm⟩

end Alias

namespace AliasTable

/-- The alias that counts for a specifier: of those that cover it, the first of the longest stem. -/
structure Picks (table : AliasTable) (specifier : Text) (entry : Alias) (rest : Text) : Prop where
  covers : entry.Covers specifier rest
  longest : ∀ other ∈ table.entries, ∀ more, other.Covers specifier more →
    other.stem.length ≤ entry.stem.length
  first : ∃ before after, table.entries = before ++ entry :: after ∧
    ∀ other ∈ before, ∀ more, ¬other.Covers specifier more

theorem Picks.mem {table : AliasTable} {specifier rest : Text} {entry : Alias}
    (h : table.Picks specifier entry rest) : entry ∈ table.entries := by
  obtain ⟨before, after, hentries, -⟩ := h.first
  rw [hentries]
  exact List.mem_append_right _ List.mem_cons_self

theorem match?_eq_none_iff {table : AliasTable} {specifier : Text} :
    table.match? specifier = none ↔
      ∀ entry ∈ table.entries, ∀ rest, ¬entry.Covers specifier rest := by
  rw [match?, List.findSome?_eq_none_iff]
  simp only [Option.map_eq_none_iff, Alias.rest?_eq_none_iff]

theorem covers_of_match? {table : AliasTable} {specifier rest : Text} {entry : Alias}
    (h : table.match? specifier = some (entry, rest)) :
    entry ∈ table.entries ∧ entry.Covers specifier rest := by
  obtain ⟨found, hmem, hfound⟩ := List.exists_of_findSome?_eq_some h
  obtain ⟨more, hmore, heq⟩ := Option.map_eq_some_iff.1 hfound
  cases heq
  exact ⟨hmem, Alias.rest?_eq_some_iff.1 hmore⟩

theorem pairwise_ofEntries (entries : List Alias) :
    (ofEntries entries).entries.Pairwise fun a b => b.stem.length ≤ a.stem.length := by
  have hsorted : (ofEntries entries).entries.Pairwise fun a b =>
      decide (b.stem.length ≤ a.stem.length) = true :=
    List.pairwise_mergeSort (by simp; omega) (by simp; omega) entries
  refine hsorted.imp ?_
  intro a b hab
  exact of_decide_eq_true hab

theorem picks_of_match? {entries : List Alias} {specifier rest : Text} {entry : Alias}
    (h : (ofEntries entries).match? specifier = some (entry, rest)) :
    (ofEntries entries).Picks specifier entry rest := by
  obtain ⟨before, found, after, hentries, hfound, hbefore⟩ := List.findSome?_eq_some_iff.1 h
  obtain ⟨more, hmore, heq⟩ := Option.map_eq_some_iff.1 hfound
  cases heq
  have hnone : ∀ other ∈ before, ∀ more, ¬other.Covers specifier more := by
    intro other hother more hcovers
    have hother := hbefore other hother
    rw [Alias.rest?_eq_some_iff.2 hcovers] at hother
    cases hother
  refine ⟨Alias.rest?_eq_some_iff.1 hmore, ?_, before, after, hentries, hnone⟩
  intro other hother more hcovers
  have hsorted := pairwise_ofEntries entries
  rw [hentries] at hother hsorted
  obtain hother | hother := List.mem_append.1 hother
  · exact absurd hcovers (hnone other hother more)
  · obtain rfl | hother := List.mem_cons.1 hother
    · exact Nat.le_refl _
    · exact List.rel_of_pairwise_cons (List.pairwise_append.1 hsorted).2.1 hother

theorem forall₂_of_mapM {α β ε : Type} {f : α → Except ε β} {inputs : List α} {outputs : List β}
    (h : inputs.mapM f = .ok outputs) :
    List.Forall₂ (fun input output => f input = .ok output) inputs outputs := by
  induction inputs generalizing outputs with
  | nil =>
    cases h
    exact .nil
  | cons input inputs ih =>
    rw [List.mapM_cons] at h
    cases hfirst : f input with
    | error fault =>
      rw [hfirst] at h
      cases h
    | ok first =>
      cases hrest : inputs.mapM f with
      | error fault =>
        rw [hfirst, hrest] at h
        cases h
      | ok rest =>
        rw [hfirst, hrest] at h
        cases h
        exact .cons hfirst (ih hrest)

theorem exists_of_ofMapping {flavour : Flavour} {base key : Text} {value : Json} {entry : Alias}
    (h : Alias.ofMapping flavour base key value = .ok entry) :
    ∃ target, value = .array [.string target] ∧ entry = ⟨Alias.stripWildcard key,
      flavour.normalize (flavour.join base (Alias.stripWildcard target))⟩ := by
  unfold Alias.ofMapping at h
  split at h
  · next target =>
    cases h
    exact ⟨target, rfl, rfl⟩
  · cases h
  · cases h
  · cases h

def Lists (flavour : Flavour) (base : Text) (mapping : Fields Json) (entries : List Alias) : Prop :=
  List.Forall₂ (fun field entry => Alias.ofMapping flavour base field.1 field.2 = .ok entry) mapping
    entries

theorem exists_lists_of_build {flavour : Flavour} {base : Text} {mapping : Fields Json}
    {table : AliasTable} (h : build flavour base mapping = .ok table) :
    ∃ entries, table = ofEntries entries ∧ Lists flavour base mapping entries := by
  unfold build Except.map at h
  split at h
  · cases h
  · next entries hentries =>
    cases h
    exact ⟨entries, rfl, forall₂_of_mapM hentries⟩

theorem Lists.exists_of_mem {flavour : Flavour} {base : Text} {mapping : Fields Json}
    {entries : List Alias} (h : Lists flavour base mapping entries) :
    ∀ entry ∈ entries, ∃ key target, (key, .array [.string target]) ∈ mapping ∧
      entry.directory = flavour.normalize (flavour.join base (Alias.stripWildcard target)) := by
  induction h with
  | nil => simp
  | @cons field _ _ _ hfield _ ih =>
    obtain ⟨key, value⟩ := field
    obtain ⟨target, rfl, rfl⟩ := exists_of_ofMapping hfield
    refine List.forall_mem_cons.2 ⟨⟨key, target, List.mem_cons_self, rfl⟩, ?_⟩
    intro entry hentry
    obtain ⟨key, target, hmem, hdirectory⟩ := ih entry hentry
    exact ⟨key, target, List.mem_cons_of_mem _ hmem, hdirectory⟩

theorem build_spec {flavour : Flavour} {base : Text} {mapping : Fields Json} {table : AliasTable}
    (h : build flavour base mapping = .ok table) :
    (∃ entries, table = ofEntries entries) ∧
    ∀ entry ∈ table.entries, ∃ key target, (key, .array [.string target]) ∈ mapping ∧
      entry.directory = flavour.normalize (flavour.join base (Alias.stripWildcard target)) := by
  obtain ⟨entries, rfl, hlists⟩ := exists_lists_of_build h
  refine ⟨⟨entries, rfl⟩, ?_⟩
  intro entry hentry
  exact hlists.exists_of_mem entry (List.mem_mergeSort.1 hentry)

def IsSingle (value : Json) : Prop := ∃ target, value = .array [.string target]

section

variable {flavour : Flavour} {base key : Text} {mapping before after : Fields Json}
  {targets : List Json}

theorem IsSingle.exists_ofMapping {value : Json} (h : IsSingle value) (flavour : Flavour)
    (base key : Text) : ∃ entry, Alias.ofMapping flavour base key value = .ok entry := by
  obtain ⟨target, rfl⟩ := h
  exact ⟨_, rfl⟩

theorem ofMapping_notSingle (h : targets.length ≠ 1) :
    Alias.ofMapping flavour base key (.array targets) = .error (.notSingle key targets.length) := by
  unfold Alias.ofMapping
  split
  · next heq =>
    cases heq
    exact absurd rfl h
  · next heq =>
    cases heq
    exact absurd rfl h
  · next heq =>
    cases heq
    rfl
  · next hnot => exact absurd rfl (hnot targets)

theorem Lists.isSingle {entries : List Alias} (h : Lists flavour base mapping entries) :
    ∀ entry ∈ mapping, IsSingle entry.2 := by
  induction h with
  | nil => simp
  | @cons field _ _ _ hfield _ ih =>
    obtain ⟨target, hvalue, -⟩ := exists_of_ofMapping hfield
    exact List.forall_mem_cons.2 ⟨⟨target, hvalue⟩, ih⟩

theorem exists_build_iff :
    (∃ table, build flavour base mapping = .ok table) ↔ ∀ entry ∈ mapping, IsSingle entry.2 := by
  constructor
  · rintro ⟨table, h⟩
    obtain ⟨entries, -, hlists⟩ := exists_lists_of_build h
    exact hlists.isSingle
  · intro h
    obtain ⟨entries, hentries⟩ := exists_mapM_eq_ok fun entry hentry =>
      (h entry hentry).exists_ofMapping flavour base entry.1
    refine ⟨ofEntries entries, ?_⟩
    rw [build, hentries]
    rfl

theorem build_eq_error (single : ∀ entry ∈ before, IsSingle entry.2) (h : targets.length ≠ 1) :
    build flavour base (before ++ (key, .array targets) :: after) =
      .error (.notSingle key targets.length) := by
  rw [build, mapM_eq_error
    (fun entry hentry => (single entry hentry).exists_ofMapping flavour base _)
    (ofMapping_notSingle h)]
  rfl

end

theorem exists_directory_eq {base : Text} {mapping : Fields Json} {table : AliasTable}
    (h : build .posix base mapping = .ok table) (hbase : isAbsolute base = true) {entry : Alias}
    (hentry : entry ∈ table.entries) (hroot : entry.directory ≠ "/")
    (hdouble : ¬("//" : Text) <+: entry.directory) :
    ∃ location : Location, entry.directory = location.text ∧ location.names ≠ [] := by
  obtain ⟨key, target, -, hdirectory⟩ := (build_spec h).2 entry hentry
  have habsolute : isAbsolute (join base (Alias.stripWildcard target)) = true :=
    isAbsolute_join hbase
  have hnormal : entry.directory = normalize (join base (Alias.stripWildcard target)) := hdirectory
  have hsingle : IsSingleRooted (normalize (join base (Alias.stripWildcard target))) := by
    refine ⟨isPrefix_normalize habsolute, ?_⟩
    rwa [← hnormal]
  obtain ⟨location, hlocation⟩ := exists_text_eq_normalize hsingle
  rw [hlocation] at hnormal
  refine ⟨location, hnormal, ?_⟩
  intro hnames
  rw [hnormal, Location.text, hnames] at hroot
  exact hroot rfl

end AliasTable

end Relink
