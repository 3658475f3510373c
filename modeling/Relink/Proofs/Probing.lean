import Mathlib.Data.List.Basic
import Relink.Conversion
import Relink.Proofs.Resolution
import Relink.Proofs.Source.Walk
import Relink.Storage.Memory

/-!
What a conversion looks at: the text of the file, and what stands at the paths that are probed for
its specifiers. Where these are the same, it comes to the same.
-/

namespace Relink

/-- At some paths, two storages give the same answer to whether a directory and whether a file
stands there. A probe that fails answers as where nothing stands. -/
def Storage.Agree (storage other : Storage) (paths : List Text) : Prop :=
  ∀ path ∈ paths, other.isDirectory path = storage.isDirectory path ∧
    other.isFile path = storage.isFile path

instance (storage other : Storage) (paths : List Text) : Decidable (storage.Agree other paths) :=
  List.decidableBAll (fun path => other.isDirectory path = storage.isDirectory path ∧
    other.isFile path = storage.isFile path) paths

namespace Storage.Agree

variable {storage other : Storage} {paths : List Text} {path : Text}

theorem of_same_entries (h : ∀ path ∈ paths, other.entry? path = storage.entry? path) :
    storage.Agree other paths := by
  intro path hpath
  rw [Storage.isDirectory, Storage.isDirectory, Storage.isFile, Storage.isFile, h path hpath]
  exact ⟨rfl, rfl⟩

theorem isDirectory (h : storage.Agree other paths) (hpath : path ∈ paths) :
    other.isDirectory path = storage.isDirectory path :=
  (h path hpath).1

theorem isFile (h : storage.Agree other paths) (hpath : path ∈ paths) :
    other.isFile path = storage.isFile path :=
  (h path hpath).2

end Storage.Agree

namespace Resolution

variable {flavour : Flavour} {storage other : Storage} {candidate ext : Text}
variable {extension : Extension}
  {resolution : Resolution}

@[simp] theorem probed_ofFile (flavour : Flavour) (path ext : Text) (probed : List Text) :
    (ofFile flavour path ext probed).probed = probed := by
  unfold ofFile
  dsimp only
  split <;> rfl

theorem Unsourced.congr (h : Unsourced storage candidate) {rest : List Text}
    (agree : storage.Agree other
      (candidate :: (candidate ++ ".ts") :: (candidate ++ ".tsx") :: rest)) :
    Unsourced other candidate where
  noDirectory := (agree.isDirectory (by simp)).trans h.noDirectory
  noTs := (agree.isFile (by simp)).trans h.noTs
  noTsx := (agree.isFile (by simp)).trans h.noTsx

theorem Outcome.congr (h : Outcome flavour storage candidate ext resolution)
    (agree : storage.Agree other resolution.probed) :
    Outcome flavour other candidate ext resolution := by
  cases h with
  | directory h => exact .directory ((agree.isDirectory (by simp)).trans h)
  | source hdirectory h =>
    exact .source ((agree.isDirectory (by simp)).trans hdirectory)
      ((agree.isFile (by simp)).trans h)
  | markupSource hdirectory hts h =>
    exact .markupSource ((agree.isDirectory (by simp)).trans hdirectory)
      ((agree.isFile (by simp)).trans hts) ((agree.isFile (by simp)).trans h)
  | file unsourced h =>
    rw [probed_ofFile] at agree
    exact .file (unsourced.congr agree) ((agree.isFile (by simp)).trans h)
  | stemSource unsourced hfile hstem h =>
    exact .stemSource (unsourced.congr agree) ((agree.isFile (by simp)).trans hfile) hstem
      ((agree.isFile (by simp)).trans h)
  | stemMarkupSource unsourced hfile hstem hts h =>
    exact .stemMarkupSource (unsourced.congr agree) ((agree.isFile (by simp)).trans hfile) hstem
      ((agree.isFile (by simp)).trans hts) ((agree.isFile (by simp)).trans h)
  | stemMissing unsourced hfile hstem hts htsx =>
    exact .stemMissing (unsourced.congr agree) ((agree.isFile (by simp)).trans hfile) hstem
      ((agree.isFile (by simp)).trans hts) ((agree.isFile (by simp)).trans htsx)
  | emitted unsourced hfile hext h =>
    exact .emitted (unsourced.congr agree) ((agree.isFile (by simp)).trans hfile) hext
      ((agree.isFile (by simp)).trans h)
  | missing unsourced hfile hext h =>
    exact .missing (unsourced.congr agree) ((agree.isFile (by simp)).trans hfile) hext
      ((agree.isFile (by simp)).trans h)

theorem Outcome.eq_resolve (h : Outcome flavour storage candidate extension.text resolution) :
    resolve flavour storage candidate extension = resolution := by
  cases h with
  | directory h => simp only [resolve, h, if_true]
  | source hdirectory h => simp only [resolve, hdirectory, h, Bool.false_eq_true, if_false, if_true]
  | markupSource hdirectory hts h =>
    simp only [resolve, hdirectory, hts, h, Bool.false_eq_true, if_false, if_true]
  | file unsourced h =>
    simp only [resolve, unsourced.noDirectory, unsourced.noTs, unsourced.noTsx, h,
      Bool.false_eq_true, if_false, if_true]
  | stemSource unsourced hfile hstem h =>
    simp only [resolve, unsourced.noDirectory, unsourced.noTs, unsourced.noTsx, hfile,
      stem?_eq_some_iff.2 hstem, h, Bool.false_eq_true, if_false, if_true]
    rfl
  | stemMarkupSource unsourced hfile hstem hts h =>
    simp only [resolve, unsourced.noDirectory, unsourced.noTs, unsourced.noTsx, hfile,
      stem?_eq_some_iff.2 hstem, hts, h, Bool.false_eq_true, if_false, if_true]
    rfl
  | stemMissing unsourced hfile hstem hts htsx =>
    simp only [resolve, unsourced.noDirectory, unsourced.noTs, unsourced.noTsx, hfile,
      stem?_eq_some_iff.2 hstem, hts, htsx, Bool.false_eq_true, if_false]
    rfl
  | emitted unsourced hfile hext h =>
    simp only [resolve, unsourced.noDirectory, unsourced.noTs, unsourced.noTsx, hfile,
      stem?_eq_none_iff.2 hext, h, Bool.false_eq_true, if_false, if_true]
    rfl
  | missing unsourced hfile hext h =>
    simp only [resolve, unsourced.noDirectory, unsourced.noTs, unsourced.noTsx, hfile,
      stem?_eq_none_iff.2 hext, h, Bool.false_eq_true, if_false]
    rfl

theorem resolve_congr
    (agree : storage.Agree other (resolve flavour storage candidate extension).probed) :
    resolve flavour other candidate extension = resolve flavour storage candidate extension :=
  ((resolve_outcome candidate).congr agree).eq_resolve

end Resolution

def Setting.on (setting : Setting) (storage : Storage) : Setting := { setting with storage }

namespace Specifier

variable {setting : Setting} {other : Storage} {context : FileContext} {raw : Text}

def probed (setting : Setting) (context : FileContext) (raw : Text) : List Text :=
  ((target? setting context raw).map (·.resolution.probed)).getD []

theorem target?_congr (agree : setting.storage.Agree other (probed setting context raw)) :
    target? (setting.on other) context raw = target? setting context raw := by
  have hcandidate : candidate? (setting.on other) context (Literal.unquote raw) =
      candidate? setting context (Literal.unquote raw) := rfl
  simp only [probed, target?] at agree
  simp only [target?, hcandidate]
  cases hsome : candidate? setting context (Literal.unquote raw) with
  | none => rfl
  | some candidate =>
    rw [hsome] at agree
    simp only [Option.map_some, Setting.on] at agree ⊢
    rw [Resolution.resolve_congr agree]

theorem rewrite_congr (agree : setting.storage.Agree other (probed setting context raw)) :
    rewrite (setting.on other) context raw = rewrite setting context raw := by
  rw [rewrite, rewrite, target?_congr agree]
  rfl

theorem miss?_congr (agree : setting.storage.Agree other (probed setting context raw)) :
    miss? (setting.on other) context raw = miss? setting context raw := by
  rw [miss?, miss?, target?_congr agree]

end Specifier

namespace Source

variable {setting : Setting} {other : Storage} {context : FileContext} {source : Bytes}
variable {root : Node}

def probed (setting : Setting) (context : FileContext) (source : Bytes) (root : Node) : List Text :=
  (literals source context.file (root.sites source false)).1.flatMap
    fun (_, _, raw) => Specifier.probed setting context (raw.map .char)

theorem rewriteTree_congr
    (agree : setting.storage.Agree other (probed setting context source root)) :
    (rewriteTree (setting.on other) context source root).edits =
        (rewriteTree setting context source root).edits ∧
      (rewriteTree (setting.on other) context source root).misses =
        (rewriteTree setting context source root).misses ∧
      (rewriteTree (setting.on other) context source root).fault =
        (rewriteTree setting context source root).fault := by
  have agree' : ∀ entry ∈ (literals source context.file (root.sites source false)).1,
      setting.storage.Agree other (Specifier.probed setting context (entry.2.2.map .char)) :=
    fun entry hentry path hpath => agree path (List.mem_flatMap.2 ⟨entry, hentry, hpath⟩)
  refine ⟨?_, ?_, rfl⟩
  · rw [← walk_root] at agree'
    apply List.filterMap_congr
    intro entry hentry
    simp only [Specifier.rewrite_congr (agree' entry hentry)]
  · rw [misses_rewriteTree, misses_rewriteTree]
    apply List.filterMap_congr
    intro entry hentry
    exact Specifier.miss?_congr (agree' entry hentry)

end Source

/-- A storage none of whose probes fails: what could not be examined is not there. -/
def Storage.quiet (storage : Storage) : Storage where
  stat path := .ok (storage.entry? path)
  read := storage.read

theorem Storage.agree_quiet (storage : Storage) (paths : List Text) :
    storage.Agree storage.quiet paths :=
  .of_same_entries fun _ _ => rfl

/-- What a resolution, a literal and a whole source come to rests on the answers at the paths that
were probed for them. What stands at other paths does not count, nor why a probe failed. -/
theorem Setting.rests_on_probes (setting : Setting) (other : Storage) :
    (∀ candidate extension,
      setting.storage.Agree other
        (Resolution.resolve setting.flavour setting.storage candidate extension).probed →
      Resolution.resolve setting.flavour other candidate extension =
        Resolution.resolve setting.flavour setting.storage candidate extension) ∧
    (∀ context raw, setting.storage.Agree other (Specifier.probed setting context raw) →
      Specifier.rewrite (setting.on other) context raw = Specifier.rewrite setting context raw ∧
      Specifier.miss? (setting.on other) context raw = Specifier.miss? setting context raw) ∧
    (∀ context source root, setting.storage.Agree other
      (Source.probed setting context source root) →
      (Source.rewriteTree (setting.on other) context source root).edits =
        (Source.rewriteTree setting context source root).edits ∧
      (Source.rewriteTree (setting.on other) context source root).misses =
        (Source.rewriteTree setting context source root).misses) ∧
    (∀ context raw,
      Specifier.rewrite (setting.on setting.storage.quiet) context raw =
        Specifier.rewrite setting context raw ∧
      Specifier.miss? (setting.on setting.storage.quiet) context raw =
        Specifier.miss? setting context raw) := by
  refine ⟨?_, ?_, ?_, ?_⟩
  · intro candidate extension agree
    exact Resolution.resolve_congr agree
  · intro context raw agree
    exact ⟨Specifier.rewrite_congr agree, Specifier.miss?_congr agree⟩
  · intro context source root agree
    obtain ⟨hedits, hmisses, -⟩ := Source.rewriteTree_congr agree
    exact ⟨hedits, hmisses⟩
  · intro context raw
    have agree := setting.storage.agree_quiet (Specifier.probed setting context raw)
    exact ⟨Specifier.rewrite_congr agree, Specifier.miss?_congr agree⟩

def guardedMemory : Memory := ⟨[("/p/a.ts", "a();")], [], [], ["/p/a"]⟩

def otherMemory : Memory := ⟨[("/p/a.ts", "b();"), ("/q.ts", "")], ["/p/a.js"], ["/p/a"], []⟩

def probingContext : FileContext := ⟨"/p/x.ts", "/p", ⟨[]⟩, .js⟩

theorem rests_on_probes_guarded :
    guardedMemory.storage.stat "/p/a" ≠ otherMemory.storage.stat "/p/a" ∧
    guardedMemory.storage.Agree otherMemory.storage
      (Specifier.probed ⟨.posix, guardedMemory.storage, "/p"⟩ probingContext "'./a'") ∧
    Specifier.rewrite ⟨.posix, otherMemory.storage, "/p"⟩ probingContext "'./a'" =
      Specifier.rewrite ⟨.posix, guardedMemory.storage, "/p"⟩ probingContext "'./a'" ∧
    Specifier.miss? ⟨.posix, otherMemory.storage, "/p"⟩ probingContext "'./a'" =
      Specifier.miss? ⟨.posix, guardedMemory.storage, "/p"⟩ probingContext "'./a'" :=
  have agree : guardedMemory.storage.Agree otherMemory.storage
      (Specifier.probed ⟨.posix, guardedMemory.storage, "/p"⟩ probingContext "'./a'") := by decide
  ⟨by decide, agree, (Setting.rests_on_probes ⟨.posix, guardedMemory.storage, "/p"⟩
    otherMemory.storage).2.1 probingContext "'./a'" agree⟩

namespace Project

variable {project : Project} {grammar : Source.Grammar} {other : Storage} {path : Text}

def on (project : Project) (storage : Storage) : Project :=
  { project with setting := project.setting.on storage }

def probed (project : Project) (grammar : Source.Grammar) (path : Text) : List Text :=
  match project.input path .stored with
  | .error _ => []
  | .ok octets =>
    Source.probed project.setting (project.context path project.extension) octets
      (grammar (Dialect.ofPath path) octets).root

theorem convertTree_congr {extension : Extension} {octets : Bytes} {root : Node}
    (agree : project.setting.storage.Agree other
      (Source.probed project.setting (project.context path extension) octets root)) :
    ((project.on other).convertTree path extension octets root).result =
      (project.convertTree path extension octets root).result := by
  obtain ⟨hedits, hmisses, hfault⟩ := Source.rewriteTree_congr agree
  have hsetting : (project.on other).setting = project.setting.on other := rfl
  have hcontext : (project.on other).context path extension = project.context path extension := rfl
  simp only [convertTree, hsetting, hcontext, hedits, hmisses, hfault]

theorem convertBy_congr (read : other.read path = project.setting.storage.read path)
    (agree : project.setting.storage.Agree other (project.probed grammar path)) :
    ((project.on other).convertBy grammar path .stored none).result =
      (project.convertBy grammar path .stored none).result := by
  have hinput : (project.on other).input path .stored = project.input path .stored := by
    have hread : (project.on other).setting.storage.read path =
        project.setting.storage.read path := read
    simp only [input, hread]
  unfold probed at agree
  simp only [convertBy, hinput]
  cases hsome : project.input path .stored with
  | error fault => rfl
  | ok octets =>
    rw [hsome] at agree
    exact convertTree_congr agree

end Project

end Relink
