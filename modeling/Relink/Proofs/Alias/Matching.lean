import Mathlib.Data.List.Nodup
import Mathlib.Data.List.Perm.Basic
import Relink.Proofs.Alias.Collision

namespace Relink

variable {flavour : Flavour} {base specifier stem rest : Text} {mapping other : Fields Json}
  {entries : List Alias} {entry : Alias} {table : AliasTable}

namespace Alias

/-- A specifier is the stem, or goes on behind it with a new segment. -/
def Leads (stem specifier : Text) : Prop := specifier = stem ∨ stem ++ [.char '/'] <+: specifier

instance (stem specifier : Text) : Decidable (Leads stem specifier) :=
  inferInstanceAs (Decidable (specifier = stem ∨ stem ++ [.char '/'] <+: specifier))

theorem exists_covers_iff : (∃ rest, entry.Covers specifier rest) ↔ Leads entry.stem specifier := by
  constructor
  · rintro ⟨rest, rfl, rfl | ⟨more, rfl⟩⟩
    · exact .inl (List.append_nil _)
    · exact .inr ⟨more, by simp⟩
  · rintro (rfl | ⟨more, rfl⟩)
    · exact ⟨[], (List.append_nil _).symm, .inl rfl⟩
    · exact ⟨'/' :: more, by simp, .inr ⟨more, rfl⟩⟩

/-- The alias that a mapping means for a specifier, with what follows its stem. -/
structure Means (flavour : Flavour) (base : Text) (mapping : Fields Json) (specifier : Text)
    (entry : Alias) (rest : Text) : Prop where
  covers : entry.Covers specifier rest
  longest : ∀ field ∈ mapping, Leads (stripWildcard field.1) specifier →
    (stripWildcard field.1).length ≤ entry.stem.length
  first : ∃ key value, mapping.find? (stripWildcard ·.1 = entry.stem) = some (key, value) ∧
    ofMapping flavour base key value = .ok entry

theorem stem_of_ofMapping {key : Text} {value : Json}
    (h : ofMapping flavour base key value = .ok entry) : entry.stem = stripWildcard key := by
  obtain ⟨target, -, rfl⟩ := AliasTable.exists_of_ofMapping h
  rfl

theorem Means.leads (h : Means flavour base mapping specifier entry rest) :
    Leads entry.stem specifier := exists_covers_iff.1 ⟨rest, h.covers⟩

theorem Means.unique {entry' : Alias} {rest' : Text}
    (h : Means flavour base mapping specifier entry rest)
    (h' : Means flavour base mapping specifier entry' rest') : entry = entry' ∧ rest = rest' := by
  obtain ⟨key, value, hfind, hentry⟩ := h.first
  obtain ⟨key', value', hfind', hentry'⟩ := h'.first
  have hstem := stem_of_ofMapping hentry
  have hstem' := stem_of_ofMapping hentry'
  have hle := h'.longest _ (List.mem_of_find?_eq_some hfind) (hstem ▸ h.leads)
  have hle' := h.longest _ (List.mem_of_find?_eq_some hfind') (hstem' ▸ h'.leads)
  rw [← hstem] at hle
  rw [← hstem'] at hle'
  have hprefix : entry.stem <+: specifier := ⟨rest, h.covers.1.symm⟩
  have hprefix' : entry'.stem <+: specifier := ⟨rest', h'.covers.1.symm⟩
  have hsame : entry.stem = entry'.stem :=
    (List.prefix_of_prefix_length_le hprefix hprefix' hle).eq_of_length (Nat.le_antisymm hle hle')
  rw [hsame, hfind'] at hfind
  cases hfind
  obtain rfl : entry' = entry := Except.ok.inj (hentry'.symm.trans hentry)
  exact ⟨rfl, List.append_cancel_left (h.covers.1.symm.trans h'.covers.1)⟩

end Alias

namespace AliasTable

open Alias (Leads Means)

theorem Lists.map_stem (h : Lists flavour base mapping entries) :
    entries.map (·.stem) = mapping.map (Alias.stripWildcard ·.1) := by
  induction h with
  | nil => rfl
  | cons hfield _ ih => rw [List.map_cons, List.map_cons, ih, Alias.stem_of_ofMapping hfield]

theorem Lists.find?_stem (h : Lists flavour base mapping entries)
    (hfind : entries.find? (·.stem = stem) = some entry) :
    ∃ key value, mapping.find? (Alias.stripWildcard ·.1 = stem) = some (key, value) ∧
      Alias.ofMapping flavour base key value = .ok entry := by
  induction h with
  | nil => cases hfind
  | @cons field first mapping entries hfield _ ih =>
    have hstem := Alias.stem_of_ofMapping hfield
    by_cases hfirst : first.stem = stem
    · rw [List.find?_cons_of_pos (by simpa using hfirst)] at hfind
      cases hfind
      refine ⟨field.1, field.2, ?_, hfield⟩
      rw [List.find?_cons_of_pos (by simpa [← hstem] using hfirst)]
    · rw [List.find?_cons_of_neg (by simpa using hfirst)] at hfind
      obtain ⟨key, value, hkey, hentry⟩ := ih hfind
      refine ⟨key, value, ?_, hentry⟩
      rwa [List.find?_cons_of_neg (by simpa [← hstem] using hfirst)]

theorem find?_stem_ofEntries (entries : List Alias) (stem : Text) :
    (ofEntries entries).entries.find? (·.stem = stem) = entries.find? (·.stem = stem) := by
  rw [← List.head?_filter, filter_stem_ofEntries, List.head?_filter]

section Listed

variable (lists : Lists flavour base mapping entries)
include lists

theorem forall_stem_iff {p : Text → Prop} :
    (∀ entry ∈ (ofEntries entries).entries, p entry.stem) ↔
      ∀ field ∈ mapping, p (Alias.stripWildcard field.1) := by
  have hentries : (∀ entry ∈ entries, p entry.stem) ↔ ∀ stem ∈ entries.map (·.stem), p stem :=
    List.forall_mem_map.symm
  have hmapping : (∀ field ∈ mapping, p (Alias.stripWildcard field.1)) ↔
      ∀ stem ∈ mapping.map (Alias.stripWildcard ·.1), p stem :=
    List.forall_mem_map.symm
  simp only [ofEntries, List.mem_mergeSort]
  rw [hentries, hmapping, lists.map_stem]

theorem match?_eq_none_iff_leads : (ofEntries entries).match? specifier = none ↔
    ∀ field ∈ mapping, ¬Leads (Alias.stripWildcard field.1) specifier := by
  rw [match?_eq_none_iff, ← forall_stem_iff lists (p := fun stem => ¬Leads stem specifier)]
  simp only [← not_exists, Alias.exists_covers_iff]

theorem means_of_match? (h : (ofEntries entries).match? specifier = some (entry, rest)) :
    Means flavour base mapping specifier entry rest := by
  have picks := picks_of_match? h
  refine ⟨picks.covers, ?_, ?_⟩
  · refine (forall_stem_iff lists (p := fun stem => Leads stem specifier →
      stem.length ≤ entry.stem.length)).1 ?_
    intro other hother hleads
    obtain ⟨more, hcovers⟩ := Alias.exists_covers_iff.2 hleads
    exact picks.longest other hother more hcovers
  · apply lists.find?_stem
    rw [← find?_stem_ofEntries]
    exact picks.find?_stem

theorem match?_eq_some_iff : (ofEntries entries).match? specifier = some (entry, rest) ↔
    Means flavour base mapping specifier entry rest := by
  refine ⟨means_of_match? lists, ?_⟩
  intro means
  cases hmatch : (ofEntries entries).match? specifier with
  | none =>
    obtain ⟨key, value, hfind, hentry⟩ := means.first
    have hnone := (match?_eq_none_iff_leads lists).1 hmatch _ (List.mem_of_find?_eq_some hfind)
    exact absurd means.leads (Alias.stem_of_ofMapping hentry ▸ hnone)
  | some found =>
    obtain ⟨entry', rest'⟩ := found
    obtain ⟨rfl, rfl⟩ := (means_of_match? lists hmatch).unique means
    rfl

end Listed

theorem mapM_of_forall₂ {α β ε : Type} {f : α → Except ε β} {inputs : List α} {outputs : List β}
    (h : List.Forall₂ (fun input output => f input = .ok output) inputs outputs) :
    inputs.mapM f = .ok outputs := by
  induction h with
  | nil => rfl
  | cons hfirst _ ih =>
    rw [List.mapM_cons, hfirst, ih]
    rfl

theorem build_of_lists (lists : Lists flavour base mapping entries) :
    build flavour base mapping = .ok (ofEntries entries) := by
  rw [build, mapM_of_forall₂ lists]
  rfl

theorem find?_eq_some_iff_mem (distinct : (mapping.map (Alias.stripWildcard ·.1)).Nodup)
    {field : Text × Json} : mapping.find? (Alias.stripWildcard ·.1 = stem) = some field ↔
      field ∈ mapping ∧ Alias.stripWildcard field.1 = stem := by
  constructor
  · intro hfind
    exact ⟨List.mem_of_find?_eq_some hfind, by simpa using List.find?_some hfind⟩
  · rintro ⟨hmem, hstem⟩
    have hsome : (mapping.find? (Alias.stripWildcard ·.1 = stem)).isSome :=
      List.find?_isSome.2 ⟨field, hmem, decide_eq_true hstem⟩
    obtain ⟨first, hfirst⟩ := Option.isSome_iff_exists.1 hsome
    have hfirstStem : Alias.stripWildcard first.1 = stem := by simpa using List.find?_some hfirst
    have hsame : first = field := List.inj_on_of_nodup_map distinct
      (List.mem_of_find?_eq_some hfirst) hmem (hfirstStem.trans hstem.symm)
    exact hsame ▸ hfirst

theorem means_perm (h : other.Perm mapping)
    (distinct : (mapping.map (Alias.stripWildcard ·.1)).Nodup) :
    Means flavour base other specifier entry rest ↔
      Means flavour base mapping specifier entry rest := by
  have distinct' : (other.map (Alias.stripWildcard ·.1)).Nodup := (h.map _).nodup_iff.2 distinct
  have hfind : other.find? (Alias.stripWildcard ·.1 = entry.stem) =
      mapping.find? (Alias.stripWildcard ·.1 = entry.stem) := by
    ext field
    rw [find?_eq_some_iff_mem distinct, find?_eq_some_iff_mem distinct', h.mem_iff]
  constructor
  · rintro ⟨covers, longest, first⟩
    exact ⟨covers, fun field hfield => longest field (h.mem_iff.2 hfield), hfind ▸ first⟩
  · rintro ⟨covers, longest, first⟩
    exact ⟨covers, fun field hfield => longest field (h.mem_iff.1 hfield), hfind ▸ first⟩

theorem match?_perm (h : other.Perm mapping)
    (distinct : (mapping.map (Alias.stripWildcard ·.1)).Nodup)
    (lists : Lists flavour base mapping entries) :
    ∃ table, build flavour base other = .ok table ∧
      ∀ specifier, table.match? specifier = (ofEntries entries).match? specifier := by
  obtain ⟨entries', lists', -⟩ := List.perm_comp_forall₂ h lists
  refine ⟨ofEntries entries', build_of_lists lists', ?_⟩
  intro specifier
  ext ⟨entry, rest⟩
  rw [match?_eq_some_iff lists', match?_eq_some_iff lists, means_perm h distinct]

/-- A table matches a specifier with what its mapping means for it, and with nothing exactly when no
stem of the mapping covers it. The entries are those of the keys, the longest stems first, and where
the stems are distinct their order does not matter. -/
theorem match?_means (h : build flavour base mapping = .ok table) :
    (∀ specifier, table.match? specifier = none ↔
      ∀ field ∈ mapping, ¬Leads (Alias.stripWildcard field.1) specifier) ∧
    (∀ specifier entry rest, table.match? specifier = some (entry, rest) ↔
      Means flavour base mapping specifier entry rest) ∧
    (∃ entries, Lists flavour base mapping entries ∧ table.entries.Perm entries) ∧
    (table.entries.Pairwise fun a b => b.stem.length ≤ a.stem.length) ∧
    ((mapping.map (Alias.stripWildcard ·.1)).Nodup → ∀ other, other.Perm mapping →
      ∃ table', build flavour base other = .ok table' ∧
        ∀ specifier, table'.match? specifier = table.match? specifier) := by
  obtain ⟨entries, rfl, lists⟩ := exists_lists_of_build h
  exact ⟨fun _ => match?_eq_none_iff_leads lists, fun _ _ _ => match?_eq_some_iff lists,
    ⟨entries, lists, List.mergeSort_perm _ _⟩, pairwise_ofEntries entries,
    fun distinct _ hperm => match?_perm hperm distinct lists⟩

def appMapping : Fields Json :=
  [("@/*", .array [.string "src/*"]), ("@app/*", .array [.string "src/app/*"]),
    ("@app/core/*", .array [.string "src/core/*"]), ("@app", .array [.string "main"])]

def appAliases : List Alias :=
  [⟨"@", "/p/src"⟩, ⟨"@app", "/p/src/app"⟩, ⟨"@app/core", "/p/src/core"⟩, ⟨"@app", "/p/main"⟩]

theorem build_appMapping : build .posix "/p" appMapping = .ok (ofEntries appAliases) :=
  build_of_lists (.cons rfl (.cons rfl (.cons rfl (.cons rfl .nil))))

theorem match?_means_app :
    build .posix "/p" appMapping = .ok (ofEntries appAliases) ∧
    (ofEntries appAliases).match? "@app/core/x" =
      some (⟨"@app/core", "/p/src/core"⟩, ("/x" : Text)) ∧
    (ofEntries appAliases).match? "@app/x" = some (⟨"@app", "/p/src/app"⟩, ("/x" : Text)) ∧
    (ofEntries appAliases).match? "@application/x" = none ∧
    ((appMapping.take 3).map (Alias.stripWildcard ·.1)).Nodup ∧
    ∃ table, build .posix "/p" (appMapping.take 3).reverse = .ok table ∧
      table.match? "@app/core/x" = some (⟨"@app/core", "/p/src/core"⟩, ("/x" : Text)) := by
  obtain ⟨uncovered, covered, -⟩ := match?_means build_appMapping
  have built : build .posix "/p" (appMapping.take 3) = .ok (ofEntries (appAliases.take 3)) :=
    build_of_lists (.cons rfl (.cons rfl (.cons rfl .nil)))
  obtain ⟨-, covered', -, -, reordered⟩ := match?_means built
  have distinct : ((appMapping.take 3).map (Alias.stripWildcard ·.1)).Nodup := by decide
  obtain ⟨table, htable, hmatch⟩ := reordered distinct _ (List.reverse_perm _)
  refine ⟨build_appMapping, (covered _ _ _).2 ⟨⟨rfl, .inr ⟨_, rfl⟩⟩, by decide, _, _, rfl, rfl⟩,
    (covered _ _ _).2 ⟨⟨rfl, .inr ⟨_, rfl⟩⟩, by decide, _, _, rfl, rfl⟩,
    (uncovered _).2 (by decide), distinct, table, htable, ?_⟩
  rw [hmatch]
  exact (covered' _ _ _).2 ⟨⟨rfl, .inr ⟨_, rfl⟩⟩, by decide, _, _, rfl, rfl⟩

end AliasTable

end Relink
