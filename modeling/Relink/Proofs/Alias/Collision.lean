import Mathlib.Data.List.Pairwise
import Relink.Proofs.Alias

namespace Relink

def Alias.directories (flavour : Flavour) (base : Text) (mapping : Fields Json) (stem : Text) :
    List Text :=
  mapping.filterMap fun
    | (key, .array [.string target]) =>
      if stripWildcard key = stem then
        some (flavour.normalize (flavour.join base (stripWildcard target)))
      else none
    | _ => none

namespace AliasTable

theorem filter_stem_ofEntries (entries : List Alias) (stem : Text) :
    (ofEntries entries).entries.filter (·.stem = stem) = entries.filter (·.stem = stem) := by
  have hsame : (entries.filter (·.stem = stem)).Pairwise fun a b =>
      decide (b.stem.length ≤ a.stem.length) = true := by
    apply List.pairwise_of_forall_mem_list
    intro a ha b hb
    have hstem : a.stem = b.stem := by
      simp only [List.mem_filter, decide_eq_true_eq] at ha hb
      rw [ha.2, hb.2]
    simp [hstem]
  have hsublist := (List.sublist_mergeSort (by simp; omega) (by simp; omega) hsame
    List.filter_sublist).filter (·.stem = stem)
  simp only [List.filter_filter, Bool.and_self] at hsublist
  have hlength := ((List.mergeSort_perm entries fun a b => b.stem.length ≤ a.stem.length).filter
    (·.stem = stem)).length_eq
  exact (hsublist.eq_of_length hlength.symm).symm

theorem lookup_ofEntries (entries : List Alias) (stem : Text) :
    (ofEntries entries).lookup stem =
      ((entries.filter (·.stem = stem)).map (·.directory)).getLast? := by
  rw [lookup, ← List.getLast?_filter, filter_stem_ofEntries, List.getLast?_map]

theorem Picks.find?_stem {table : AliasTable} {specifier rest : Text} {entry : Alias}
    (h : table.Picks specifier entry rest) :
    table.entries.find? (·.stem = entry.stem) = some entry := by
  obtain ⟨before, after, hentries, hbefore⟩ := h.first
  rw [List.find?_eq_some_iff_append]
  refine ⟨by simp, before, after, hentries, ?_⟩
  intro other hother
  simp only [Bool.not_eq_true', decide_eq_false_iff_not]
  intro hstem
  exact hbefore other hother rest ⟨hstem ▸ h.covers.1, h.covers.2⟩

theorem head?_of_match? {entries : List Alias} {specifier rest : Text} {entry : Alias}
    (h : (ofEntries entries).match? specifier = some (entry, rest)) :
    ((entries.filter (·.stem = entry.stem)).map (·.directory)).head? = some entry.directory := by
  rw [← filter_stem_ofEntries, List.head?_map, List.head?_filter, (picks_of_match? h).find?_stem]
  rfl

theorem exists_match?_stem {entries : List Alias} {entry : Alias} (h : entry ∈ entries) :
    ∃ first rest, (ofEntries entries).match? entry.stem = some (first, rest) ∧
      first.stem = entry.stem := by
  have hmem : entry ∈ (ofEntries entries).entries := List.mem_mergeSort.2 h
  have hcovers : entry.Covers entry.stem [] := ⟨(List.append_nil _).symm, Or.inl rfl⟩
  cases hmatch : (ofEntries entries).match? entry.stem with
  | none => exact absurd hcovers (match?_eq_none_iff.1 hmatch entry hmem [])
  | some found =>
    obtain ⟨first, rest⟩ := found
    have picks := picks_of_match? hmatch
    have hprefix : first.stem <+: entry.stem := ⟨rest, picks.covers.1.symm⟩
    refine ⟨first, rest, rfl, ?_⟩
    exact hprefix.eq_of_length_le (picks.longest entry hmem [] hcovers)

theorem Lists.directories_eq {flavour : Flavour} {base : Text} {mapping : Fields Json}
    {entries : List Alias} (h : Lists flavour base mapping entries) (stem : Text) :
    Alias.directories flavour base mapping stem =
      (entries.filter (·.stem = stem)).map (·.directory) := by
  induction h with
  | nil => rfl
  | @cons field _ mapping entries hfield _ ih =>
    obtain ⟨key, value⟩ := field
    obtain ⟨target, rfl, rfl⟩ := exists_of_ofMapping hfield
    rw [Alias.directories] at ih ⊢
    by_cases hkey : Alias.stripWildcard key = stem
    · simp [hkey, ih]
    · simp [hkey, ih]

/-- The directory of the alias that a specifier is matched with is the one that its stem is looked
up as, for every specifier, exactly when the first and the last directory that the mapping gives to
a stem are the same. -/
theorem lookup_stem_eq_iff {flavour : Flavour} {base : Text} {mapping : Fields Json}
    {table : AliasTable} (h : build flavour base mapping = .ok table) :
    (∀ specifier entry rest, table.match? specifier = some (entry, rest) →
      table.lookup entry.stem = some entry.directory) ↔
    ∀ stem, (Alias.directories flavour base mapping stem).head? =
      (Alias.directories flavour base mapping stem).getLast? := by
  obtain ⟨entries, rfl, hlists⟩ := exists_lists_of_build h
  simp only [hlists.directories_eq, lookup_ofEntries]
  constructor
  · intro agree stem
    cases hstem : entries.filter (·.stem = stem) with
    | nil => rfl
    | cons entry others =>
      have hentry : entry ∈ entries.filter (·.stem = stem) := hstem ▸ List.mem_cons_self
      obtain ⟨hmem, rfl⟩ : entry ∈ entries ∧ entry.stem = stem := by simpa using hentry
      obtain ⟨first, rest, hmatch, hfirst⟩ := exists_match?_stem hmem
      have hlast := agree _ first rest hmatch
      have hhead := head?_of_match? hmatch
      rw [hfirst, hstem] at hlast hhead
      rw [hlast, hhead]
  · intro same specifier entry rest hmatch
    rw [← same, head?_of_match? hmatch]

def starredMapping (target starred : Text) : Fields Json :=
  [("@lib", .array [.string target]), ("@lib/*", .array [.string starred])]

def starredTable (directory starred : Text) : AliasTable :=
  ⟨[⟨"@lib", directory⟩, ⟨"@lib", starred⟩]⟩

theorem build_starredMapping (target starred : Text) :
    build .posix "/p" (starredMapping target starred) = .ok (starredTable
      (Path.Posix.normalize (Path.Posix.join "/p" (Alias.stripWildcard target)))
      (Path.Posix.normalize (Path.Posix.join "/p" (Alias.stripWildcard starred)))) := by
  have sorted (a b : Text) : ofEntries [⟨"@lib", a⟩, ⟨"@lib", b⟩] = starredTable a b := by
    rw [ofEntries, List.mergeSort_of_pairwise (by simp)]
    rfl
  exact congrArg Except.ok (sorted _ _)

theorem lookup_stem_eq_iff_starred :
    build .posix "/p" (starredMapping "lib" "lib/*") = .ok (starredTable "/p/lib" "/p/lib") ∧
    ((∀ specifier entry rest,
      (starredTable "/p/lib" "/p/lib").match? specifier = some (entry, rest) →
        (starredTable "/p/lib" "/p/lib").lookup entry.stem = some entry.directory) ↔
    ∀ stem, (Alias.directories .posix "/p" (starredMapping "lib" "lib/*") stem).head? =
      (Alias.directories .posix "/p" (starredMapping "lib" "lib/*") stem).getLast?) :=
  have built := build_starredMapping "lib" "lib/*"
  ⟨built, lookup_stem_eq_iff built⟩

/-- Where the key with a star leads elsewhere than the key without, a specifier goes to the one
directory and the lookup of its stem to the other. -/
theorem lookup_stem_ne_starred :
    build .posix "/p" (starredMapping "a" "b/*") = .ok (starredTable "/p/a" "/p/b") ∧
    (starredTable "/p/a" "/p/b").match? "@lib/x" = some (⟨"@lib", "/p/a"⟩, ("/x" : Text)) ∧
    (starredTable "/p/a" "/p/b").lookup "@lib" = some ("/p/b" : Text) :=
  ⟨build_starredMapping "a" "b/*", by decide, by decide⟩

end AliasTable

end Relink
