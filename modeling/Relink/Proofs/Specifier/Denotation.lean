import Relink.Proofs.Alias
import Relink.Proofs.Literal
import Relink.Proofs.Path.Relative
import Relink.Proofs.Resolution
import Relink.Source.Site

namespace Relink.Specifier

open Path.Posix

def IsDotted (specifier : Text) : Prop :=
  specifier = "." ∨ specifier = ".." ∨ ("./" : Text) <+: specifier ∨ ("../" : Text) <+: specifier

theorem isDotted_dotted (path : Text) : IsDotted (dotted path) := by
  unfold dotted
  split_ifs with hdotted hslash
  · rw [List.isPrefixOf_iff_prefix, List.isPrefixOf_iff_prefix] at hdotted
    exact hdotted
  · obtain ⟨rest, rfl⟩ := List.isPrefixOf_iff_prefix.1 hslash
    exact Or.inr (Or.inr (Or.inl ⟨rest, rfl⟩))
  · exact Or.inr (Or.inr (Or.inl ⟨path, rfl⟩))

theorem IsDotted.isAbsolute_eq_false {specifier : Text} (h : IsDotted specifier) :
    isAbsolute specifier = false := by
  obtain rfl | rfl | ⟨rest, rfl⟩ | ⟨rest, rfl⟩ := h <;> rfl

theorem IsDotted.led {specifier : Text} (h : IsDotted specifier) : ("." : Text) <+: specifier := by
  obtain rfl | rfl | ⟨rest, rfl⟩ | ⟨rest, rfl⟩ := h
  · exact ⟨[], rfl⟩
  · exact ⟨['.'], rfl⟩
  · exact ⟨'/' :: rest, rfl⟩
  · exact ⟨'.' :: '/' :: rest, rfl⟩

theorem follow_dotted (location : Location) {path : Text} (h : isAbsolute path = false) :
    location.follow (dotted path) = location.follow path := by
  unfold dotted
  split_ifs with hdotted hslash
  · rfl
  · obtain ⟨rest, rfl⟩ := List.isPrefixOf_iff_prefix.1 hslash
    cases h
  · apply Location.ext
    have hcomponents : components ("./" ++ path) = [.char '.'] :: components path :=
      components_append ['.'] path
    simp only [Location.follow]
    rw [hcomponents, List.foldl_cons, Path.push_dot]

theorem mem_dotted {path : Text} {c : CodePoint} (h : c ∈ dotted path) :
    c ∈ path ∨ c ∈ ("./" : Text) := by
  unfold dotted at h
  split_ifs at h
  · exact Or.inl h
  · obtain rfl | h := List.mem_cons.1 h
    · exact Or.inr List.mem_cons_self
    · exact Or.inl h
  · exact (List.mem_append.1 h).symm

theorem relativeTo_text {setting : Setting} (posix : setting.flavour = .posix)
    (start target : Location) :
    relativeTo setting target.text start.text = dotted (start.wayTo target) := by
  rw [relativeTo, posix]
  simp only [Flavour.relative?, Flavour.forwardSlashes, Location.relative?_text]

theorem normalize_join_dotted (start target : Location) :
    normalize (join start.text (dotted (start.wayTo target))) = target.text := by
  rw [start.normalize_join (isDotted_dotted _).isAbsolute_eq_false,
    follow_dotted start (start.isAbsolute_wayTo target), Location.follow_wayTo]

/-- The path that a specifier names in a file, before any file is looked for. -/
inductive Names (context : FileContext) : Text → Text → Prop
  | relative {specifier : Text} (h : ("." : Text) <+: specifier) :
      Names context specifier (normalize (join context.directory specifier))
  | aliased {specifier rest : Text} {entry : Alias} (h : ("@" : Text) <+: specifier)
      (picks : context.aliases.Picks specifier entry rest) :
      Names context specifier (normalize (entry.directory ++ rest))

def IsForeign (context : FileContext) (specifier : Text) : Prop :=
  ¬("." : Text) <+: specifier ∧
  (("@" : Text) <+: specifier →
    ∀ entry ∈ context.aliases.entries, ∀ rest, ¬entry.Covers specifier rest)

/-- A context of posix paths, with aliases under an absolute base; neither the file nor a directory
of an alias has two slashes in front, and none of these is the root. -/
structure Rooted (setting : Setting) (base : Text) (mapping : Fields Json) (context : FileContext) :
    Prop where
  posix : setting.flavour = .posix
  opened : ∃ path, context = FileContext.of setting path context.aliases context.extension
  file : IsSingleRooted context.file
  absolute : isAbsolute base = true
  built : AliasTable.build .posix base mapping = .ok context.aliases
  directory : ∀ entry ∈ context.aliases.entries,
    entry.directory ≠ "/" ∧ ¬("//" : Text) <+: entry.directory

theorem classify_relative {specifier : Text} (h : ("." : Text) <+: specifier) :
    classify specifier = .relative := by
  obtain ⟨rest, rfl⟩ := h
  rfl

theorem classify_aliased {specifier : Text} (h : ("@" : Text) <+: specifier) :
    classify specifier = .aliased := by
  obtain ⟨rest, rfl⟩ := h
  rfl

theorem classify_bare {specifier : Text} (hdot : ¬("." : Text) <+: specifier)
    (hat : ¬("@" : Text) <+: specifier) : classify specifier = .bare := by
  unfold classify
  split
  · next rest => exact absurd ⟨rest, rfl⟩ hdot
  · next rest => exact absurd ⟨rest, rfl⟩ hat
  · rfl

variable {setting : Setting} {base : Text} {mapping : Fields Json} {context : FileContext}

theorem Rooted.directory_eq (rooted : Rooted setting base mapping context) :
    context.directory = dirname context.file := by
  obtain ⟨path, hcontext⟩ := rooted.opened
  rw [hcontext]
  simp only [FileContext.of, rooted.posix, Flavour.dirname]

theorem Rooted.exists_file_eq (rooted : Rooted setting base mapping context) :
    ∃ file : Location, context.file = file.text := by
  obtain ⟨path, hcontext⟩ := rooted.opened
  have hfile := congrArg FileContext.file hcontext
  have hsingle := rooted.file
  simp only [FileContext.of, rooted.posix, Flavour.absolute] at hfile
  rw [hfile] at hsingle ⊢
  exact exists_text_eq_normalize hsingle

theorem Rooted.exists_directory_eq (rooted : Rooted setting base mapping context) :
    ∃ directory : Location, context.directory = directory.text := by
  obtain ⟨file, hfile⟩ := rooted.exists_file_eq
  rw [rooted.directory_eq, hfile]
  exact file.exists_dirname_eq

theorem Names.exists_eq (rooted : Rooted setting base mapping context) {specifier candidate : Text}
    (h : Names context specifier candidate) : ∃ location : Location, candidate = location.text := by
  cases h with
  | relative h =>
    obtain ⟨directory, hdirectory⟩ := rooted.exists_directory_eq
    obtain ⟨rest, rfl⟩ := h
    rw [hdirectory, directory.normalize_join rfl]
    exact ⟨_, rfl⟩
  | aliased h picks =>
    obtain ⟨hroot, hdouble⟩ := rooted.directory _ picks.mem
    obtain ⟨location, hlocation, hnames⟩ :=
      AliasTable.exists_directory_eq rooted.built rooted.absolute picks.mem hroot hdouble
    rw [hlocation, Location.normalize_eq (location.root_text_append hnames _)]
    exact ⟨_, rfl⟩

theorem Names.exists_resolve_eq (rooted : Rooted setting base mapping context)
    {specifier candidate : Text} (h : Names context specifier candidate) :
    ∃ target : Location,
      (Resolution.resolve .posix setting.storage candidate context.extension).path =
        target.text := by
  obtain ⟨location, rfl⟩ := h.exists_eq rooted
  exact (Resolution.resolve_outcome location.text).exists_path_eq

theorem candidate?_relative (rooted : Rooted setting base mapping context) {specifier : Text}
    (h : ("." : Text) <+: specifier) :
    candidate? setting context specifier = some (normalize (join context.directory specifier)) := by
  rw [candidate?, classify_relative h, rooted.posix]
  rfl

theorem candidate?_cases (rooted : Rooted setting base mapping context) (specifier : Text) :
    (IsForeign context specifier ∧ candidate? setting context specifier = none) ∨
    ∃ candidate, ¬IsForeign context specifier ∧ Names context specifier candidate ∧
      candidate? setting context specifier = some candidate := by
  by_cases hdot : ("." : Text) <+: specifier
  · exact Or.inr ⟨_, fun h => h.1 hdot, .relative hdot, candidate?_relative rooted hdot⟩
  · by_cases hat : ("@" : Text) <+: specifier
    · rw [candidate?, classify_aliased hat, rooted.posix]
      simp only
      cases hmatch : context.aliases.match? specifier with
      | none => exact Or.inl ⟨⟨hdot, fun _ => AliasTable.match?_eq_none_iff.1 hmatch⟩, rfl⟩
      | some found =>
        obtain ⟨entry, rest⟩ := found
        obtain ⟨⟨entries, htable⟩, -⟩ := AliasTable.build_spec rooted.built
        have picks : context.aliases.Picks specifier entry rest := by
          rw [htable] at hmatch ⊢
          exact AliasTable.picks_of_match? hmatch
        refine Or.inr ⟨_, ?_, .aliased hat picks, rfl⟩
        intro h
        exact h.2 hat entry picks.mem rest picks.covers
    · refine Or.inl ⟨⟨hdot, fun h => absurd h hat⟩, ?_⟩
      rw [candidate?, classify_bare hdot hat]

theorem rewrite_eq (rooted : Rooted setting base mapping context) {raw candidate : Text}
    {start target : Location}
    (hcandidate : candidate? setting context (Literal.unquote raw) = some candidate)
    (hstart : context.directory = start.text)
    (htarget : (Resolution.resolve .posix setting.storage candidate context.extension).path =
      target.text) :
    rewrite setting context raw =
      Literal.markOf raw :: Literal.escape (Literal.markOf raw) (dotted (start.wayTo target)) ++
        [Literal.markOf raw] := by
  have hmark := Literal.ne_backslash_of_isMark (Literal.isMark_markOf raw)
  rw [rewrite, target?, hcandidate, rooted.posix]
  simp only [Option.map_some, Target.emitted]
  rw [htarget, hstart, relativeTo_text rooted.posix, Literal.quote_eq hmark]

theorem record_eq (rooted : Rooted setting base mapping context) {raw candidate : Text}
    (hcandidate : candidate? setting context (Literal.unquote raw) = some candidate)
    (misses : List Miss) :
    record setting context misses raw =
      if (Resolution.resolve .posix setting.storage candidate context.extension).strategy =
          .notFound then
        misses ++ [⟨context.file, Literal.unquote raw, candidate,
          (Resolution.resolve .posix setting.storage candidate context.extension).probed⟩]
      else misses := by
  rw [record, miss?, target?, hcandidate, rooted.posix]
  simp only [Option.map_some, Option.bind_some, Resolution.found]
  by_cases hmissing : (Resolution.resolve .posix setting.storage candidate
      context.extension).strategy = .notFound
  · simp [hmissing]
  · simp [hmissing]

/-- The literal that is written for `raw` leads from the directory of the file to the path that the
candidate is resolved to, and a candidate without file is recorded. -/
def Denotes (setting : Setting) (context : FileContext) (raw candidate : Text) : Prop :=
  let resolution := Resolution.resolve .posix setting.storage candidate context.extension
  (∃ mark body, Literal.Opens raw mark ∧ rewrite setting context raw = mark :: body ++ [mark] ∧
    IsDotted (Literal.decode body) ∧
    normalize (join context.directory (Literal.decode body)) = resolution.path) ∧
  ∀ misses, record setting context misses raw =
    if resolution.strategy = .notFound then
      misses ++ [⟨context.file, Literal.unquote raw, candidate, resolution.probed⟩]
    else misses

/-- The specifier of a package is left alone, and what is written for any other leads to the path
that it was resolved to. -/
theorem rewrite_denotes (rooted : Rooted setting base mapping context) (raw : Text) :
    (IsForeign context (Literal.unquote raw) →
      rewrite setting context raw = raw ∧ ∀ misses, record setting context misses raw = misses) ∧
    (¬IsForeign context (Literal.unquote raw) →
      ∃ candidate, Names context (Literal.unquote raw) candidate ∧
        Denotes setting context raw candidate) := by
  obtain ⟨hforeign, hnone⟩ | ⟨candidate, hforeign, names, hsome⟩ :=
    candidate?_cases rooted (Literal.unquote raw)
  · refine ⟨fun _ => ?_, fun h => absurd hforeign h⟩
    have htarget : target? setting context raw = none := by
      rw [target?, hnone]
      rfl
    refine ⟨?_, fun misses => ?_⟩
    · rw [rewrite, htarget]
    · rw [record, miss?, htarget]
      exact List.append_nil misses
  · refine ⟨fun h => absurd h hforeign, fun _ => ?_⟩
    obtain ⟨start, hstart⟩ := rooted.exists_directory_eq
    obtain ⟨target, htarget⟩ := names.exists_resolve_eq rooted
    have hrewrite := rewrite_eq rooted hsome hstart htarget
    refine ⟨_, names, ⟨_, _, Literal.opens_markOf raw, hrewrite, ?_, ?_⟩, record_eq rooted hsome⟩
    · rw [Literal.decode_escape]
      exact isDotted_dotted _
    · rw [Literal.decode_escape, hstart, normalize_join_dotted, htarget]

def libraryStorage : Storage where
  stat path :=
    .ok (if path = "/p/lib" then some .directory
      else if path = "/p/lib/a.ts" then some .file else none)
  read path := .error (.fault ⟨.notFound, path⟩)

def librarySetting : Setting := ⟨.posix, libraryStorage, "/p"⟩

def libraryMapping : Fields Json := [("@lib/*", .array [.string "lib/*"])]

def libraryContext : FileContext := ⟨"/p/src/x.ts", "/p/src", ⟨[⟨"@lib", "/p/lib"⟩]⟩, .js⟩

theorem libraryContext_rooted : Rooted librarySetting "/p" libraryMapping libraryContext where
  posix := rfl
  opened := ⟨"src/x.ts", rfl⟩
  file := by
    unfold IsSingleRooted
    decide
  absolute := rfl
  built := by
    change Except.ok (AliasTable.ofEntries [⟨"@lib", "/p/lib"⟩]) = _
    rw [AliasTable.ofEntries, List.mergeSort_singleton]
    rfl
  directory := by decide

theorem rewrite_denotes_library :
    Rooted librarySetting "/p" libraryMapping libraryContext ∧
    ¬IsForeign libraryContext (Literal.unquote "'@lib/a'") ∧
    ∃ candidate, Names libraryContext (Literal.unquote "'@lib/a'") candidate ∧
      Denotes librarySetting libraryContext "'@lib/a'" candidate :=
  have aliased : ¬IsForeign libraryContext (Literal.unquote "'@lib/a'") := fun h =>
    h.2 ⟨_, rfl⟩ ⟨"@lib", "/p/lib"⟩ List.mem_cons_self "/a" ⟨rfl, Or.inr ⟨_, rfl⟩⟩
  ⟨libraryContext_rooted, aliased, (rewrite_denotes libraryContext_rooted "'@lib/a'").2 aliased⟩

end Relink.Specifier
