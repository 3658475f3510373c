import Relink.Proofs.Alias.Matching
import Relink.Proofs.Path.LastComponent
import Relink.Proofs.Specifier.Denotation

namespace Relink

namespace Path.Posix

variable {front more : Text}

theorem Location.normalize_append (location : Location) (h : isAbsolute more = false) :
    normalize (location.text ++ .char '/' :: more) =
      (if location.names = [] then [.char '/'] else []) ++ (location.follow more).text := by
  split
  · next hnames =>
    have htext : location.text = [.char '/'] := by
      rw [text, hnames]
      rfl
    have hroot : root ('/' :: '/' :: more) = [.char '/', .char '/'] := by
      cases more with
      | nil => rfl
      | cons c more =>
        have hc : c ≠ '/' := fun heq => by simp [isAbsolute, heq] at h
        simp [root, hc]
    have hcollapse : collapse true (components ('/' :: '/' :: more)) =
        (location.follow more).names := by
      simp only [components_cons, collapse, List.foldl_cons, push_nil, follow, hnames,
        List.reverse_nil]
    have habsolute : isAbsolute ('/' :: '/' :: more) = true := rfl
    rw [htext, List.cons_append, List.nil_append]
    simp only [normalize, hroot, habsolute, hcollapse]
    rfl
  · next hnames =>
    rw [← normalize_join location h, join_text location h, if_neg hnames]
    rfl

theorem join_append (path : Text) (h : front ≠ []) :
    join path (front ++ more) = join path front ++ more := by
  obtain ⟨c, front, rfl⟩ := List.exists_cons_of_ne_nil h
  have hsame : isAbsolute (c :: front ++ more) = isAbsolute (c :: front) := rfl
  unfold join
  rw [hsame]
  split_ifs <;> simp

theorem noShare_append (h : front ≠ []) (hshare : ¬("//" : Text) <+: front ++ [.char '/']) :
    ¬("//" : Text) <+: front ++ .char '/' :: more := by
  rintro ⟨rest, hrest⟩
  match front with
  | [] => exact h rfl
  | [c] =>
    obtain ⟨rfl, -⟩ : '/' = c ∧ rest = more := by simpa using hrest
    exact hshare ⟨[], rfl⟩
  | c :: d :: front =>
    obtain ⟨rfl, rfl, -⟩ : '/' = c ∧ '/' = d ∧ rest = front ++ .char '/' :: more := by
      simpa using hrest
    exact hshare ⟨front ++ [.char '/'], rfl⟩

def Location.reach (base : Location) (path : Text) : Location := top.follow (join base.text path)

namespace Location

variable {base : Location}

theorem normalize_join_reach (h : ¬("//" : Text) <+: front) :
    normalize (join base.text front) = (base.reach front).text := normalize_eq (root_join base h)

theorem normalize_join_append (hfront : front ≠ []) (h : ¬("//" : Text) <+: front ++ [.char '/']) :
    normalize (join base.text (front ++ .char '/' :: more)) =
      ((base.reach front).follow more).text := by
  rw [normalize_eq (root_join base (noShare_append hfront h)), join_append _ hfront]
  congr 1
  apply ext
  simp only [reach, follow, components_append, List.foldl_append, List.reverse_reverse]

theorem names_eq_nil_iff {location : Location} : location.names = [] ↔ location.text = "/" := by
  constructor
  · intro h
    rw [text, h]
    rfl
  · intro h
    rw [← filter_components_text, h]
    rfl

theorem normalize_normalize_append (base : Location) (hfront : front ≠ [])
    (h : ¬("//" : Text) <+: front ++ [.char '/']) (hmore : isAbsolute more = false) :
    normalize (normalize (join base.text front) ++ .char '/' :: more) =
      (if normalize (join base.text front) = "/" then [.char '/'] else []) ++
        normalize (join base.text (front ++ .char '/' :: more)) := by
  have hreach : normalize (join base.text front) = (base.reach front).text :=
    normalize_join_reach fun hshare => h (hshare.trans (List.prefix_append front ['/']))
  rw [hreach, normalize_append _ hmore, normalize_join_append hfront h]
  simp only [names_eq_nil_iff]

theorem normalize_join_name {name : Text} (hname : IsName name) (hslash : .char '/' ∉ name) :
    normalize (join base.text name) ≠ "/" := by
  rw [normalize_join base (isAbsolute_of_not_mem hslash), ne_eq, ← names_eq_nil_iff]
  simp only [follow, components_eq_singleton hslash,
    foldl_push_names _ (List.forall_mem_singleton.2 hname)]
  simp

end Location

end Path.Posix

open Path.Posix

theorem Alias.stripWildcard_star (front : Text) : stripWildcard (front ++ "/*") = front := by
  have hreverse : (front ++ ("/*" : Text)).reverse =
      .char '*' :: .char '/' :: front.reverse := by simp
  rw [stripWildcard, hreverse]
  exact List.reverse_reverse front

def Alias.fill (target path : Text) : Text := target.dropLast ++ path

theorem Alias.fill_star (front path : Text) :
    fill (front ++ "/*") path = front ++ .char '/' :: path := by
  have hstar : (front ++ ("/*" : Text)).dropLast = front ++ [.char '/'] :=
    List.dropLast_append_of_ne_nil nofun
  rw [fill, hstar, List.append_assoc]
  rfl

namespace Specifier

variable {before after : Fields Json} {base : Text} {stem target front rest raw : Text}
  {setting : Setting} {context : FileContext}

theorem means_star (directory : Text)
    (others : ∀ field ∈ before ++ after,
      Alias.Leads (Alias.stripWildcard field.1) (stem ++ .char '/' :: rest) →
        (Alias.stripWildcard field.1).length < stem.length)
    (hdirectory : directory = normalize (join base (Alias.stripWildcard target))) :
    Alias.Means .posix base (before ++ (stem ++ "/*", .array [.string target]) :: after)
      (stem ++ .char '/' :: rest) ⟨stem, directory⟩ ('/' :: rest) := by
  have hstem : Alias.stripWildcard (stem ++ "/*") = stem := Alias.stripWildcard_star stem
  refine ⟨⟨rfl, .inr ⟨rest, rfl⟩⟩, ?_, stem ++ "/*", .array [.string target], ?_, ?_⟩
  · intro field hfield hleads
    obtain hfield | hfield := List.mem_append.1 hfield
    · exact Nat.le_of_lt (others field (List.mem_append_left _ hfield) hleads)
    · obtain rfl | hfield := List.mem_cons.1 hfield
      · exact Nat.le_of_eq (congrArg List.length hstem)
      · exact Nat.le_of_lt (others field (List.mem_append_right _ hfield) hleads)
  · rw [List.find?_append, List.find?_eq_none.2, Option.none_or,
      List.find?_cons_of_pos (by simpa using hstem)]
    intro field hfield hsame
    have hsame : Alias.stripWildcard field.1 = stem := of_decide_eq_true hsame
    have hleads : Alias.Leads (Alias.stripWildcard field.1) (stem ++ .char '/' :: rest) :=
      .inr ⟨rest, by simp [hsame]⟩
    have := others field (List.mem_append_left _ hfield) hleads
    rw [hsame] at this
    exact Nat.lt_irrefl _ this
  · rw [Alias.ofMapping, hstem, hdirectory]
    rfl

theorem target?_aliased (setting : Setting) (before after : Fields Json) (stem rest raw : Text)
    (posix : setting.flavour = .posix)
    (hstem : ("@" : Text) <+: stem)
    (built : AliasTable.build .posix base
      (before ++ (stem ++ "/*", .array [.string target]) :: after) = .ok context.aliases)
    (others : ∀ field ∈ before ++ after,
      Alias.Leads (Alias.stripWildcard field.1) (stem ++ .char '/' :: rest) →
        (Alias.stripWildcard field.1).length < stem.length)
    (hraw : Literal.unquote raw = stem ++ .char '/' :: rest) {directory candidate : Text}
    (hdirectory : directory = normalize (join base (Alias.stripWildcard target)))
    (hcandidate : candidate = normalize (directory ++ .char '/' :: rest)) :
    target? setting context raw = some ⟨stem ++ .char '/' :: rest, candidate,
      Resolution.resolve .posix setting.storage candidate context.extension⟩ := by
  have hmatch : context.aliases.match? (stem ++ .char '/' :: rest) =
      some (⟨stem, directory⟩, .char '/' :: rest) := by
    obtain ⟨entries, htable, lists⟩ := AliasTable.exists_lists_of_build built
    rw [htable]
    exact (AliasTable.match?_eq_some_iff lists).2 (means_star directory others hdirectory)
  have hclassify : classify (stem ++ .char '/' :: rest) = .aliased := by
    obtain ⟨more, rfl⟩ := hstem
    rfl
  simp only [target?, hraw, candidate?, hclassify, hmatch, posix, Option.map_some, hcandidate]
  rfl

/-- A specifier behind a stem with a star names what the target says with the rest in place of its
star, where a path in front of the star leads below the root; a lone star is a name like any
other. -/
theorem target?_wildcard (setting : Setting) (before after : Fields Json) (stem rest raw : Text)
    (single : IsSingleRooted base) (normal : normalize base = base)
    (posix : setting.flavour = .posix) (hstem : ("@" : Text) <+: stem)
    (built : AliasTable.build .posix base
      (before ++ (stem ++ "/*", .array [.string target]) :: after) = .ok context.aliases)
    (others : ∀ field ∈ before ++ after,
      Alias.Leads (Alias.stripWildcard field.1) (stem ++ .char '/' :: rest) →
        (Alias.stripWildcard field.1).length < stem.length)
    (noShare : ¬("//" : Text) <+: target) (hrest : isAbsolute rest = false)
    (hraw : Literal.unquote raw = stem ++ .char '/' :: rest) :
    ∃ candidate, target? setting context raw = some ⟨stem ++ .char '/' :: rest, candidate,
        Resolution.resolve .posix setting.storage candidate context.extension⟩ ∧
      (∀ front, target = front ++ "/*" → front ≠ [] → normalize (join base front) ≠ "/" →
        candidate = normalize (join base (Alias.fill target rest)) ∧
        (isAbsolute target = true → candidate = normalize (Alias.fill target rest))) ∧
      (target = "*" → candidate = normalize (join base (target ++ .char '/' :: rest))) := by
  refine ⟨_, target?_aliased setting before after stem rest raw posix hstem built others hraw rfl
    rfl, ?_⟩
  obtain ⟨home, hhome⟩ : ∃ home : Location, base = home.text := by
    rw [← normal] at single ⊢
    exact exists_text_eq_normalize single
  subst hhome
  constructor
  · intro front htarget hfront hdirectory
    have hshare : ¬("//" : Text) <+: front ++ [.char '/'] := by
      rw [htarget, show front ++ ("/*" : Text) = front ++ [.char '/'] ++ [.char '*'] by simp]
        at noShare
      exact fun hshare => noShare (hshare.trans (List.prefix_append _ _))
    have hcandidate := home.normalize_normalize_append hfront hshare hrest
    rw [if_neg hdirectory, List.nil_append] at hcandidate
    rw [htarget, Alias.stripWildcard_star, Alias.fill_star, hcandidate]
    refine ⟨rfl, fun habsolute => ?_⟩
    have hfill : isAbsolute (front ++ .char '/' :: rest) = true := by
      rw [← habsolute]
      cases front <;> rfl
    rw [join, if_pos hfill]
  · intro htarget
    have hstrip : Alias.stripWildcard "*" = "*" := rfl
    have hname : normalize (join home.text "*") ≠ "/" :=
      Location.normalize_join_name ⟨by decide, by decide, by decide⟩ (by decide)
    rw [htarget, hstrip, home.normalize_normalize_append (by decide) (by decide) hrest,
      if_neg hname, List.nil_append]

def starMapping (target : Text) : Fields Json :=
  [("@/*", .array [.string "src/*"]), ("@lib/*", .array [.string target])]

def starContext (target : Text) : FileContext where
  file := "/p/a.ts"
  directory := "/p"
  aliases := .ofEntries [⟨"@", "/p/src"⟩,
    ⟨"@lib", normalize (join "/p" (Alias.stripWildcard target))⟩]
  extension := .js

theorem build_starMapping (target : Text) :
    AliasTable.build .posix "/p" (starMapping target) = .ok (starContext target).aliases :=
  AliasTable.build_of_lists (.cons rfl (.cons rfl .nil))

theorem starMapping_others (rest : Text) :
    ∀ field ∈ [(("@/*" : Text), Json.array [.string "src/*"])] ++ [],
    Alias.Leads (Alias.stripWildcard field.1) ("@lib" ++ .char '/' :: rest) →
      (Alias.stripWildcard field.1).length < ("@lib" : Text).length := by
  intro field hfield _
  cases List.mem_singleton.1 hfield
  decide

theorem target?_wildcard_dots : ∃ candidate,
    target? librarySetting (starContext "./src/../lib/*") "'@lib/../a'" =
      some ⟨"@lib/../a", candidate, Resolution.resolve .posix libraryStorage candidate .js⟩ ∧
    candidate = "/p/a" := by
  obtain ⟨candidate, htarget, hfilled, -⟩ := target?_wildcard librarySetting
    [("@/*", .array [.string "src/*"])] [] "@lib" "../a" "'@lib/../a'"
      ⟨by decide, by decide⟩ rfl rfl
    ⟨_, rfl⟩ (build_starMapping "./src/../lib/*") (starMapping_others _) (by decide) rfl rfl
  obtain ⟨hcandidate, -⟩ := hfilled "./src/../lib" rfl (by decide) (by decide)
  exact ⟨candidate, htarget, hcandidate⟩

theorem candidate_starContext (target : Text) :
    (target? librarySetting (starContext target) "'@lib/x'").map (·.candidate) =
      some (normalize (normalize (join "/p" (Alias.stripWildcard target)) ++ "/x")) := by
  have htarget := target?_aliased librarySetting [("@/*", .array [.string "src/*"])] [] "@lib" "x"
    "'@lib/x'" rfl ⟨_, rfl⟩ (build_starMapping target) (starMapping_others "x") rfl rfl rfl
  rw [htarget]
  rfl

/-- A lone star, the root, and a way up to the root. -/
theorem target?_wildcard_not_filled :
    ((target? librarySetting (starContext "*") "'@lib/x'").map (·.candidate) = some "/p/*/x" ∧
      normalize (join "/p" (Alias.fill "*" "x")) = "/p/x") ∧
    ((target? librarySetting (starContext "/*") "'@lib/x'").map (·.candidate) = some "/p/x" ∧
      normalize (join "/p" (Alias.fill "/*" "x")) = "/x") ∧
    ((target? librarySetting (starContext "../*") "'@lib/x'").map (·.candidate) = some "//x" ∧
      normalize (join "/p" (Alias.fill "../*" "x")) = "/x") := by
  simp only [candidate_starContext]
  decide

end Specifier

end Relink
