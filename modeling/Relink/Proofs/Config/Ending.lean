import Relink.Proofs.Config.Cycle

namespace Relink.Config

open Relink.Path (Parts)
open Relink.Path.Parts (Dotted)
open Relink.Path.Posix (isAbsolute)

variable {disk : Disk} {path path' : Parts} {start text : Text} {contents contents' : Json}
  {first above : File}

def beside (path : Parts) (text : Text) : Parts := path.parent.append (.ofText text)

section

variable (relative : isAbsolute text = false) (named : (Parts.ofText text).names ≠ [])

include relative named

theorem names_beside (path : Parts) : (beside path text).names ≠ [] := by
  have hroot : (Parts.ofText text).root = [] := Path.Posix.root_eq_nil relative
  rw [beside, Parts.append, if_pos hroot]
  exact List.append_ne_nil_of_right_ne_nil _ named

theorem parentOf_eq (path : Parts) : parentOf path (some (.string text)) =
    if (beside path text).suffix ≠ [] then .ok (some (beside path text))
    else .ok (some ((beside path text).withEnding ".json")) := by
  have given : text ≠ [] := by
    rintro rfl
    exact named rfl
  simp only [parentOf, if_neg given]
  change (if (beside path text).suffix ≠ [] then _ else _) = _
  split_ifs with hsuffix
  · rfl
  · have hrenamed := Parts.withSuffix?_eq (names_beside relative named path)
      (Parts.suffix_ne_nil_iff.not.1 hsuffix) ".json"
    rw [← beside, hrenamed]

theorem parentOf_dotted (path : Parts) (dotted : Dotted (Parts.ofText text).name) :
    parentOf path (some (.string text)) = .ok (some (beside path text)) := by
  have hname : (beside path text).name = (Parts.ofText text).name :=
    Parts.name_append relative named
  rw [parentOf_eq relative named, if_pos (Parts.suffix_ne_nil_iff.2 (hname ▸ dotted))]

theorem parentOf_not_dotted (path : Parts) (undotted : ¬Dotted (Parts.ofText text).name) :
    parentOf path (some (.string text)) = .ok (some ((beside path text).withEnding ".json")) := by
  have hname : (beside path text).name = (Parts.ofText text).name :=
    Parts.name_append relative named
  rw [parentOf_eq relative named, if_neg (Parts.suffix_ne_nil_iff.not.2 (hname ▸ undotted))]

end

theorem withEnding_ne (path : Parts) : path.withEnding ".json" ≠ path := by
  intro heq
  have hname := congrArg Parts.name heq
  rw [Parts.name_withEnding] at hname
  simpa using congrArg List.length hname

theorem readObject_unique (rooted : path.Rooted) (rooted' : path'.Rooted)
    (h : readObject disk path = .ok contents) (h' : readObject disk path' = .ok contents')
    (heq : identity disk path = identity disk path') : contents = contents' := by
  obtain ⟨octets, text, hfile, hdecode, hparse⟩ := exists_octets_of_readObject h
  obtain ⟨octets', text', hfile', hdecode', hparse'⟩ := exists_octets_of_readObject h'
  obtain ⟨place, hfinds, hnode⟩ := Disk.readBytes_eq_ok_iff_finds.1 hfile
  obtain ⟨place', hfinds', hnode'⟩ := Disk.readBytes_eq_ok_iff_finds.1 hfile'
  obtain rfl := (identity_eq_iff rooted rooted' hfinds hfinds').1 heq
  cases hnode.symm.trans hnode'
  cases hdecode.symm.trans hdecode'
  exact Except.ok.inj (hparse.symm.trans hparse')

theorem not_readObject_of_stat (absent : disk.stat path.toText = none) :
    readObject disk path ≠ .ok contents := by
  intro h
  obtain ⟨octets, -, hfile, -⟩ := exists_octets_of_readObject h
  obtain ⟨place, hfinds, hnode⟩ := Disk.readBytes_eq_ok_iff_finds.1 hfile
  have hstat := Disk.stat_eq_some_iff.2 ⟨place, _, hfinds, hnode, rfl⟩
  rw [absent] at hstat
  cases hstat

theorem parent?_of_read (hread : File.read disk path = .ok first)
    (written : readObject disk path = .ok contents) :
    parentOf path (contents.field? "extends") = .ok first.parent? := by
  obtain ⟨contents', options, checked, -, hparent⟩ := read_eq_ok hread
  cases written.symm.trans checked.read
  exact hparent

theorem exists_lineage_above {parent : Parts} {config : Config}
    (hload : load disk start = .ok config)
    (written : readObject disk (rootPath disk start) = .ok contents)
    (extended : parentOf (rootPath disk start) (contents.field? "extends") = .ok (some parent)) :
    ∃ options sources, Checked disk (rootPath disk start) contents options ∧
      Lineage disk parent sources ∧
        Inherits (⟨rootPath disk start, options⟩ :: sources) config := by
  obtain ⟨sources, lineage, inherits, -⟩ := load_inherits hload
  cases lineage with
  | alone checked last =>
    cases written.symm.trans checked.read
    cases extended.symm.trans last
  | extending checked extended' lineage =>
    cases written.symm.trans checked.read
    cases extended.symm.trans extended'
    exact ⟨_, _, checked, lineage, inherits⟩

theorem exists_load_of_two {parent : Parts}
    (hread : File.read disk (rootPath disk start) = .ok first)
    (extended : first.parent? = some parent) (there : File.read disk parent = .ok above)
    (last : above.parent? = none)
    (hne : identity disk (rootPath disk start) ≠ identity disk parent) :
    ∃ config, load disk start = .ok config := by
  have rooted := rooted_rootPath disk start
  obtain ⟨real, -, known⟩ := exists_identity_of_read rooted hread
  obtain ⟨real', -, known'⟩ := exists_identity_of_read (rooted_of_read rooted hread extended) there
  have fresh : real' ∉ [real] := by
    rw [List.mem_singleton]
    rintro rfl
    exact hne (known.trans known'.symm)
  have hrun : Run disk [] (rootPath disk start) _ _ :=
    .extending known List.not_mem_nil hread extended (.last known' fresh there last)
  obtain ⟨hchain, -⟩ := hrun.eq_chainFrom rooted (Room.initial disk)
  refine ⟨ofOptions (merged [first, above]) (rootPath disk start).parent.toText, ?_⟩
  simp only [load, loadWithin, ← hchain]
  rfl

/-- A relative path that is not there, while the file with the ending is: the configuration goes on
with that file exactly when the name has no dot inside, and otherwise it is not loaded at all. -/
theorem load_ending_iff (hread : File.read disk (rootPath disk start) = .ok first)
    (written : readObject disk (rootPath disk start) = .ok contents)
    (extended : contents.field? "extends" = some (.string text))
    (relative : isAbsolute text = false) (named : (Parts.ofText text).names ≠ [])
    (absent : disk.stat (beside (rootPath disk start) text).toText = none)
    (there : File.read disk ((beside (rootPath disk start) text).withEnding ".json") = .ok above) :
    ((∃ real, Reads disk (rootPath disk start) [real]
        ((beside (rootPath disk start) text).withEnding ".json")) ↔
      ¬Dotted (Parts.ofText text).name) ∧
    (¬Dotted (Parts.ofText text).name →
      (∀ config, load disk start = .ok config → ∃ options sources,
        Checked disk (rootPath disk start) contents options ∧
        Lineage disk ((beside (rootPath disk start) text).withEnding ".json") sources ∧
        Inherits (⟨rootPath disk start, options⟩ :: sources) config) ∧
      (above.parent? = none → ∃ config, load disk start = .ok config)) ∧
    (Dotted (Parts.ofText text).name → ∀ config, load disk start ≠ .ok config) := by
  have rooted := rooted_rootPath disk start
  have hparent := parent?_of_read hread written
  have hdotted := parentOf_dotted relative named (rootPath disk start)
  have hundotted := parentOf_not_dotted relative named (rootPath disk start)
  rw [← extended] at hdotted hundotted
  refine ⟨⟨?_, ?_⟩, ?_, ?_⟩
  · rintro ⟨real, hreads⟩ dotted
    cases hreads with
    | above known hread' extended' hreads =>
    cases hread.symm.trans hread'
    cases hreads with
    | here =>
      rw [hdotted dotted, extended'] at hparent
      exact withEnding_ne _ (Option.some.inj (Except.ok.inj hparent)).symm
  · intro undotted
    obtain ⟨real, -, known⟩ := exists_identity_of_read rooted hread
    rw [hundotted undotted] at hparent
    exact ⟨real, .above known hread (Except.ok.inj hparent).symm (.here _)⟩
  · intro undotted
    refine ⟨fun config hload => exists_lineage_above hload written (hundotted undotted), ?_⟩
    intro last
    rw [hundotted undotted] at hparent
    have extended' := (Except.ok.inj hparent).symm
    refine exists_load_of_two hread extended' there last ?_
    intro heq
    -- Were it the same file, it would extend something itself.
    obtain ⟨contents', options, checked, -, hparent'⟩ := read_eq_ok there
    obtain rfl := readObject_unique rooted (rooted_of_read rooted hread extended') written
      checked.read heq
    rw [extended, parentOf_not_dotted relative named _ undotted, last] at hparent'
    cases hparent'
  · intro dotted config hload
    obtain ⟨options, sources, -, lineage, -⟩ := exists_lineage_above hload written (hdotted dotted)
    cases lineage with
    | alone checked | extending checked => exact not_readObject_of_stat absent checked.read

def extendingDisk (name : Chars) : Disk where
  nodes := [
    (["p"], .directory),
    (["p", "tsconfig.json"], .file (Chars.utf8 ("\x7b \"extends\": \"" ++ name ++ "\" \x7d"))),
    (["p", name.map CodePoint.char ++ ".json"],
      .file (Chars.utf8 "\x7b \"compilerOptions\": \x7b \"target\": \"es5\" \x7d \x7d"))]
  here := ["p"]

theorem load_ending_iff_hidden :
    (∃ contents, readObject (extendingDisk ".base")
      (rootPath (extendingDisk ".base") "tsconfig.json") =
      .ok contents ∧ contents.field? "extends" = some (.string ".base")) ∧
    (extendingDisk ".base").stat "/p/.base" = none ∧
    (∃ real, Reads (extendingDisk ".base") (rootPath (extendingDisk ".base") "tsconfig.json") [real]
      ⟨['/'], ["p", ".base.json"]⟩) ∧
    ∃ config, load (extendingDisk ".base") "tsconfig.json" = .ok config := by
  obtain ⟨first, hread⟩ : ∃ first, File.read (extendingDisk ".base")
      (rootPath (extendingDisk ".base") "tsconfig.json") = .ok first := by
    decide +kernel
  obtain ⟨contents, written, htext⟩ : ∃ contents, readObject (extendingDisk ".base")
      (rootPath (extendingDisk ".base") "tsconfig.json") = .ok contents ∧
      (contents.field? "extends").bind (·.asText?) = some (".base" : Text) := by
    decide +kernel
  obtain ⟨above, there, last⟩ : ∃ above, File.read (extendingDisk ".base")
      ⟨['/'], ["p", ".base.json"]⟩ = .ok above ∧ above.parent? = none := by
    decide +kernel
  have extended := Json.bind_asText?_eq_some.1 htext
  have absent : (extendingDisk ".base").stat "/p/.base" = none := by decide +kernel
  obtain ⟨hreads, hload, -⟩ :=
    load_ending_iff hread written extended (by decide) (by decide) absent there
  exact ⟨⟨contents, written, extended⟩, absent, hreads.2 (by decide), (hload (by decide)).2 last⟩

/-- With a dot inside, it is not, and the configuration is not loaded. -/
theorem load_ending_missed :
    (∃ contents, readObject (extendingDisk "base.prod")
      (rootPath (extendingDisk "base.prod") "tsconfig.json") = .ok contents ∧
      contents.field? "extends" = some (.string "base.prod")) ∧
    (extendingDisk "base.prod").stat "/p/base.prod" = none ∧
    (∃ above, File.read (extendingDisk "base.prod") ⟨['/'], ["p", "base.prod.json"]⟩ = .ok above) ∧
    ∀ config, load (extendingDisk "base.prod") "tsconfig.json" ≠ .ok config := by
  refine ⟨?_, by decide +kernel, by decide +kernel, ?_⟩
  · obtain ⟨contents, written, htext⟩ : ∃ contents, readObject (extendingDisk "base.prod")
        (rootPath (extendingDisk "base.prod") "tsconfig.json") = .ok contents ∧
        (contents.field? "extends").bind (·.asText?) = some ("base.prod" : Text) := by
      decide +kernel
    exact ⟨contents, written, Json.bind_asText?_eq_some.1 htext⟩
  · have stopped : ¬∃ config, load (extendingDisk "base.prod") "tsconfig.json" = .ok config := by
      decide +kernel
    exact not_exists.1 stopped

end Relink.Config
