import Mathlib.Data.List.Perm.Subperm
import Relink.Config.Chain
import Relink.Proofs.Except
import Relink.Proofs.Path.Posix
import Relink.Proofs.Storage.Disk
import Relink.Proofs.Storage.Usable

/-!
What stops the loading of a configuration without being reported as a fault. Without links these are
defects of the files that the load comes to read.
-/

namespace Relink.Config

variable {α β : Type} {disk : Disk} {path : Path.Parts} {contents : Json} {options : Fields Json}

def Reported : Except Stop α → Prop
  | .ok _ | .error (.fault _) => True
  | .error _ => False

instance : DecidablePred (Reported : Except Stop α → Prop)
  | .ok _ | .error (.fault _) => isTrue trivial
  | .error (.undecodable ..) | .error (.nullBase _) | .error (.nameless _)
  | .error (.endlessLinks _) | .error (.unusableName _) | .error (.unencodable ..)
  | .error (.exhausted _) => isFalse id

@[simp] theorem reported_ok (value : α) : Reported (.ok value : Except Stop α) := trivial

@[simp] theorem reported_fault (fault : Fault) : Reported (.error (.fault fault) : Except Stop α) :=
  trivial

theorem reported_bind {first : Except Stop α} {next : α → Except Stop β} :
    Reported (first >>= next) ↔
      Reported first ∧ ∀ value, first = .ok value → Reported (next value) := by
  cases first with
  | ok value =>
    constructor
    · intro h
      refine ⟨trivial, ?_⟩
      rintro _ ⟨⟩
      exact h
    · intro h
      exact h.2 value rfl
  | error stop =>
    have same : Reported (.error stop : Except Stop β) ↔
        Reported (.error stop : Except Stop α) := by
      cases stop <;> rfl
    constructor
    · intro h
      exact ⟨same.1 h, by simp⟩
    · intro h
      exact same.2 h.1

structure Checked (disk : Disk) (path : Path.Parts) (contents : Json) (options : Fields Json) :
    Prop where
  read : readObject disk path = .ok contents
  check : check path.toText ((contents.field? "compilerOptions").getD (.object [])) = .ok options

/-- What a file stops a load with, other than a fault. -/
inductive Defect (disk : Disk) (path : Path.Parts) : Prop
  | null (h : .char '\x00' ∈ path.toText) : Defect disk path
  | unencodable {c : CodePoint} (hc : c ∈ path.toText) (h : c.pathSize? = none) : Defect disk path
  | undecodable {contents : Bytes} {malformed : Utf8.Malformed}
      (file : disk.readBytes path.toText = .ok contents)
      (h : Utf8.decode contents = .error malformed) : Defect disk path
  | nullBase {contents : Json} {options : Fields Json}
      (checked : Checked disk path contents options) (h : options.get? "baseUrl" = some .null) :
      Defect disk path
  | nameless {contents : Json} {options : Fields Json} {text : Text}
      (checked : Checked disk path contents options)
      (extended : contents.field? "extends" = some (.string text)) (given : text ≠ [])
      (h : (path.parent.append (.ofText text)).names = []) : Defect disk path

/-- The paths that a load comes to from a path on, with the identities it has seen there: each file
extends the next path. -/
inductive Calls (disk : Disk) : List Text → Path.Parts → List Text → Path.Parts → Prop
  | here (seen : List Text) (path : Path.Parts) : Calls disk seen path seen path
  | above {seen seen' : List Text} {path parent other : Path.Parts} {real : Text} {file : File}
      (known : identity disk path = .ok real) (fresh : real ∉ seen)
      (read : File.read disk path = .ok file) (extended : file.parent? = some parent)
      (h : Calls disk (real :: seen) parent seen' other) : Calls disk seen path seen' other

/-- A call is in order when there is room for it, inside those that led to it, and the file has no
defect unless it was read before. -/
structure Sound (disk : Disk) (room : Nat) (seen : List Text) (path : Path.Parts) : Prop where
  room : seen.length < room
  defect : (∀ real, identity disk path = .ok real → real ∉ seen) → ¬Defect disk path

theorem reported_mapError (first : Except Fault α) : Reported (first.mapError .fault) := by
  cases first <;> trivial

theorem reported_readObject (usable : Disk.obstacle? path.toText = none) :
    Reported (readObject disk path) ↔
      ∀ octets malformed, disk.readBytes path.toText = .ok octets →
        Utf8.decode octets ≠ .error malformed := by
  cases hfile : disk.readBytes path.toText with
  | error fault =>
    refine iff_of_true ?_ (by simp)
    simp only [readObject, Disk.readText, hfile]
    obtain hobstacle | hnumber := Disk.readBytes_eq_error hfile
    · cases hobstacle.symm.trans usable
    · cases hkind : fault.kind <;> first | trivial | (rw [hkind] at hnumber; cases hnumber)
  | ok octets =>
    simp only [readObject, Disk.readText, hfile, Except.ok.injEq]
    cases hdecode : Utf8.decode octets with
    | error malformed =>
      refine iff_of_false id ?_
      intro h
      exact h octets malformed rfl hdecode
    | ok text =>
      refine iff_of_true ?_ ?_
      · dsimp only
        split <;> exact trivial
      · rintro _ malformed rfl
        simp [hdecode]

theorem checkText_eq_ok {source name : Text} {value? : Option Json}
    (h : checkText source name value? = .ok ()) :
    value? = none ∨ value? = some .null ∨ ∃ text, value? = some (.string text) := by
  unfold checkText at h
  split at h <;> simp_all

theorem baseUrl_of_check {source : Text} {value : Json} (h : check source value = .ok options) :
    options.get? "baseUrl" = none ∨ options.get? "baseUrl" = some .null ∨
      ∃ url, options.get? "baseUrl" = some (.string url) := by
  unfold check at h
  split at h
  · obtain ⟨_, -, h⟩ := bind_eq_ok h
    obtain ⟨_, hbase, h⟩ := bind_eq_ok h
    obtain ⟨_, -, h⟩ := bind_eq_ok h
    cases h
    exact checkText_eq_ok hbase
  · cases h

theorem settleBase_cases {source : Text} {value : Json} (path : Path.Parts)
    (h : check source value = .ok options) :
    (options.get? "baseUrl" = some .null ∧
      settleBase path options = .error (.nullBase path.toText)) ∨
    (options.get? "baseUrl" ≠ some .null ∧ ∃ settled, settleBase path options = .ok settled) := by
  unfold settleBase
  obtain hbase | hbase | ⟨url, hbase⟩ := baseUrl_of_check h <;> rw [hbase] <;> simp

theorem reported_parentOf {value? : Option Json} : Reported (parentOf path value?) ↔
    ∀ text, value? = some (.string text) → text ≠ [] →
      (path.parent.append (.ofText text)).names ≠ [] := by
  unfold parentOf
  split
  · simp
  · next text =>
    simp only [Option.some.injEq, Json.string.injEq, forall_eq']
    split_ifs with hempty hsuffix
    · simp [hempty]
    · refine iff_of_true trivial ?_
      intro _ hnames
      exact hsuffix (Path.Parts.suffix_eq_nil hnames)
    · cases hparent : (path.parent.append (.ofText text)).withSuffix? ".json" with
      | some parent =>
        refine iff_of_true trivial ?_
        intro _ hnames
        rw [Path.Parts.withSuffix?_eq_none_iff.2 hnames] at hparent
        cases hparent
      | none => simp [Reported, hempty, Path.Parts.withSuffix?_eq_none_iff.1 hparent]
  · next value hvalue =>
    refine iff_of_true ?_ ?_
    · split <;> exact trivial
    · rintro text ⟨⟩
      exact absurd rfl (hvalue text)

theorem reported_read (usable : Disk.obstacle? path.toText = none) :
    Reported (File.read disk path) ↔ ¬Defect disk path := by
  simp only [File.read, reported_bind]
  constructor
  · rintro ⟨hread, hoptions⟩ defect
    cases defect with
    | null h => exact (Disk.obstacle?_eq_none_iff.1 usable).2 h
    | unencodable hc h => simpa [h] using (Disk.obstacle?_eq_none_iff.1 usable).1 _ hc
    | undecodable file hdecode => exact (reported_readObject usable).1 hread _ _ file hdecode
    | nullBase checked hnull =>
      obtain ⟨hsettle, -⟩ := (hoptions _ checked.read).2 _ (mapError_eq_ok.2 checked.check)
      obtain ⟨-, hstop⟩ | ⟨hbase, -⟩ := settleBase_cases path checked.check
      · rw [hstop] at hsettle
        exact hsettle
      · exact hbase hnull
    | nameless checked hextends given hnames =>
      obtain ⟨hsettle, hparent⟩ := (hoptions _ checked.read).2 _ (mapError_eq_ok.2 checked.check)
      obtain ⟨-, hstop⟩ | ⟨-, settled, hsettled⟩ := settleBase_cases path checked.check
      · rw [hstop] at hsettle
        exact hsettle
      · exact reported_parentOf.1 (hparent _ hsettled).1 _ hextends given hnames
  · intro sound
    refine ⟨(reported_readObject usable).2 ?_, ?_⟩
    · intro octets malformed file hdecode
      exact sound (.undecodable file hdecode)
    intro contents hread
    refine ⟨reported_mapError _, ?_⟩
    intro options hoptions
    have checked : Checked disk path contents options := ⟨hread, mapError_eq_ok.1 hoptions⟩
    obtain ⟨hnull, -⟩ | ⟨-, settled, hsettled⟩ := settleBase_cases path checked.check
    · exact absurd (.nullBase checked hnull) sound
    rw [hsettled]
    refine ⟨trivial, ?_⟩
    rintro _ ⟨⟩
    refine ⟨reported_parentOf.2 ?_, fun _ _ => trivial⟩
    intro text hextends given hnames
    exact sound (.nameless checked hextends given hnames)

theorem findSome?_obstacle?_eq_none {text : Text} :
    (Path.Posix.components text).findSome? Disk.obstacle? = none ↔ Disk.obstacle? text = none := by
  rw [List.findSome?_eq_none_iff]
  simp only [Disk.obstacle?_eq_none_iff]
  constructor
  · intro h
    have hmem {c : CodePoint} (hc : c ∈ text) : c = '/' ∨ ∃ name ∈ Path.Posix.components text,
        c ∈ name := by
      rw [← Path.Posix.joinWith_components text] at hc
      simpa using Text.mem_of_mem_joinWith hc
    constructor
    · intro c hc
      obtain rfl | ⟨name, hname, hc⟩ := hmem hc
      · rfl
      · exact (h name hname).1 c hc
    · intro hnull
      obtain heq | ⟨name, hname, hnull⟩ := hmem hnull
      · cases heq
      · exact (h name hname).2 hnull
  · intro ⟨hsizes, hnull⟩ name hname
    exact ⟨fun c hc => hsizes c (Text.mem_of_mem_splitOn hname hc),
      fun hmem => hnull (Text.mem_of_mem_splitOn hname hmem)⟩

theorem identity_eq_ok (linkFree : disk.LinkFree) (usable : Disk.obstacle? path.toText = none) :
    identity disk path = .ok (disk.realPath path.toText) := by
  simp only [identity, findSome?_obstacle?_eq_none.2 usable]
  split
  · next hlinks => exact absurd hlinks (linkFree.locate_ne_tooManyLinks _)
  · rfl

theorem identity_of_obstacle (disk : Disk) {kind : FaultKind}
    (h : Disk.obstacle? path.toText = some kind) :
    ∃ stop, identity disk path = .error stop ∧
      ¬Reported (.error stop : Except Stop (List File)) := by
  have hne : (Path.Posix.components path.toText).findSome? Disk.obstacle? ≠ none := by
    rw [Ne, findSome?_obstacle?_eq_none, h]
    simp
  obtain ⟨kind', hkind⟩ := Option.ne_none_iff_exists'.1 hne
  simp only [identity, hkind]
  split
  · exact ⟨_, rfl, id⟩
  · exact ⟨_, rfl, id⟩
  · next hnone => cases hnone

theorem defect_of_obstacle {kind : FaultKind} (h : Disk.obstacle? path.toText = some kind) :
    Defect disk path := by
  by_cases hnull : .char '\x00' ∈ path.toText
  · exact .null hnull
  · have hsizes : ¬∀ c ∈ path.toText, c.pathSize?.isSome = true := by
      intro hsizes
      cases h.symm.trans (Disk.obstacle?_eq_none_iff.2 ⟨hsizes, hnull⟩)
    simp only [not_forall] at hsizes
    obtain ⟨c, hc, hsize⟩ := hsizes
    exact .unencodable hc (by simpa using hsize)

/-- As many files are still read as have an identity that was not seen yet, and one more. -/
structure Room (disk : Disk) (reads : Nat) (seen : List Text) : Prop where
  nodup : seen.Nodup
  places : seen ⊆ disk.places
  files : disk.files.length < seen.length + reads

theorem Room.initial (disk : Disk) : Room disk (disk.files.length + 1) [] :=
  ⟨.nil, by simp, by simp⟩

theorem Room.pos {reads : Nat} {seen : List Text} (room : Room disk reads seen) : 0 < reads := by
  have hlength := (room.nodup.subperm room.places).length_le
  have hfiles := room.files
  rw [Disk.length_places] at hlength
  omega

theorem Room.cons {reads : Nat} {seen : List Text} {real : Text} (room : Room disk (reads + 1) seen)
    (fresh : real ∉ seen) (place : real ∈ disk.places) : Room disk reads (real :: seen) where
  nodup := List.nodup_cons.2 ⟨fresh, room.nodup⟩
  places := List.cons_subset.2 ⟨place, room.places⟩
  files := by
    have hfiles := room.files
    simp only [List.length_cons]
    omega

theorem calls_iff {seen seen' : List Text} {real : Text} {other : Path.Parts}
    (known : identity disk path = .ok real) : Calls disk seen path seen' other ↔
      (seen' = seen ∧ other = path) ∨ real ∉ seen ∧ ∃ file parent, File.read disk path = .ok file ∧
        file.parent? = some parent ∧ Calls disk (real :: seen) parent seen' other := by
  constructor
  · intro h
    cases h with
    | here => exact .inl ⟨rfl, rfl⟩
    | above known' fresh read extended h =>
      obtain rfl : real = _ := Except.ok.inj (known.symm.trans known')
      exact .inr ⟨fresh, _, _, read, extended, h⟩
  · rintro (⟨rfl, rfl⟩ | ⟨fresh, file, parent, read, extended, h⟩)
    · exact .here _ _
    · exact .above known fresh read extended h

theorem chainFrom_succ {real : Text} (known : identity disk path = .ok real) (reads : Nat)
    (seen : List Text) : chainFrom disk (reads + 1) seen path =
      if real ∈ seen then .error (.fault (.circular path.toText))
      else File.read disk path >>= fun file =>
        match file.parent? with
        | none => .ok [file]
        | some parent =>
          chainFrom disk reads (real :: seen) parent >>= fun files => .ok (file :: files) := by
  rw [chainFrom, known]
  simp only [bind, Except.bind]
  split <;> rfl

theorem reported_chainFrom (linkFree : disk.LinkFree) (room : Nat) (seen : List Text) :
    Reported (chainFrom disk room seen path) ↔
      ∀ seen' other, Calls disk seen path seen' other →
        Sound disk (seen.length + room) seen' other := by
  induction room generalizing seen path with
  | zero => exact iff_of_false id fun h => Nat.lt_irrefl _ (h seen path (.here seen path)).room
  | succ room ih =>
    cases hobstacle : Disk.obstacle? path.toText with
    | some kind =>
      obtain ⟨stop, hidentity, unreported⟩ := identity_of_obstacle disk hobstacle
      refine iff_of_false ?_ ?_
      · rw [chainFrom, hidentity]
        exact unreported
      · intro h
        exact (h seen path (.here seen path)).defect (by simp [hidentity])
          (defect_of_obstacle hobstacle)
    | none =>
      have known := identity_eq_ok linkFree hobstacle
      have more (real : Text) : seen.length + (room + 1) = (real :: seen).length + room := by
        rw [List.length_cons]
        omega
      simp only [calls_iff known]
      rw [chainFrom_succ known]
      by_cases fresh : disk.realPath path.toText ∈ seen
      · refine iff_of_true (by simp [fresh]) ?_
        rintro seen' other (⟨rfl, rfl⟩ | ⟨hfresh, -⟩)
        · exact ⟨by omega, fun h => absurd fresh (h _ known)⟩
        · exact absurd fresh hfresh
      rw [if_neg fresh, reported_bind, reported_read hobstacle]
      constructor
      · rintro ⟨sound, above⟩ seen' other (⟨rfl, rfl⟩ | ⟨-, file, parent, hread, hparent, hcalls⟩)
        · exact ⟨by omega, fun _ => sound⟩
        · have hreported := above file hread
          rw [hparent] at hreported
          rw [more]
          exact (ih _).1 (reported_bind.1 hreported).1 seen' other hcalls
      · intro sound
        refine ⟨(sound seen path (.inl ⟨rfl, rfl⟩)).defect ?_, ?_⟩
        · rintro _ hreal
          rwa [← Except.ok.inj (known.symm.trans hreal)]
        · intro file hread
          cases hparent : file.parent? with
          | none => trivial
          | some parent =>
            refine reported_bind.2 ⟨(ih _).2 ?_, fun _ _ => trivial⟩
            intro seen' other hcalls
            rw [← more]
            exact sound seen' other (.inr ⟨fresh, file, parent, hread, hparent, hcalls⟩)

/-- Without links, loading a configuration comes to a value or to a fault with its message, exactly
when there is room for all that it comes to read and no file among them has a defect. -/
theorem reported_load_iff (linkFree : disk.LinkFree) (room : Nat) (start : Text) :
    Reported (loadWithin room disk start) ↔
      ∀ seen other, Calls disk [] (rootPath disk start) seen other →
        Sound disk room seen other := by
  rw [loadWithin, reported_bind, reported_chainFrom linkFree, List.length_nil, Nat.zero_add]
  exact and_iff_left fun _ _ => trivial

def configDisk (root base : Bytes) : Disk where
  nodes := [(["p"], .directory), (["p", "tsconfig.json"], .file root),
    (["p", "base.json"], .file base)]
  here := ["p"]

theorem configDisk_linkFree (root base : Bytes) : (configDisk root base).LinkFree := by
  simp [Disk.LinkFree, configDisk]

def extendsBase : Bytes := Chars.utf8 "\x7b \"extends\": \"./base\" \x7d"

def extendsRoot : Bytes := Chars.utf8 "\x7b \"extends\": \"/\" \x7d"

def extendsHalf : Bytes := Chars.utf8 "\x7b \"extends\": \"\\ud800\" \x7d"

def basedOnSource : Bytes :=
  Chars.utf8 "\x7b \"compilerOptions\": \x7b \"baseUrl\": \"src\" \x7d \x7d"

def basedOnNull : Bytes := Chars.utf8 "\x7b \"compilerOptions\": \x7b \"baseUrl\": null \x7d \x7d"

theorem reported_load_iff_extended : (configDisk extendsBase basedOnSource).LinkFree ∧
    Reported (loadWithin 2 (configDisk extendsBase basedOnSource) "tsconfig.json") ∧
    (∀ seen other, Calls (configDisk extendsBase basedOnSource) [] ⟨['/'], ["p", "tsconfig.json"]⟩
      seen other → Sound (configDisk extendsBase basedOnSource) 2 seen other) ∧
    ¬∀ seen other, Calls (configDisk extendsBase basedOnSource) [] ⟨['/'], ["p", "tsconfig.json"]⟩
      seen other → Sound (configDisk extendsBase basedOnSource) 1 seen other := by
  have linkFree := configDisk_linkFree extendsBase basedOnSource
  have reported : Reported
      (loadWithin 2 (configDisk extendsBase basedOnSource) "tsconfig.json") := by
    decide +kernel
  have exhausted : ¬Reported (loadWithin 1 (configDisk extendsBase basedOnSource)
    "tsconfig.json") := by
    decide +kernel
  exact ⟨linkFree, reported, (reported_load_iff linkFree 2 "tsconfig.json").1 reported,
    mt (reported_load_iff linkFree 1 "tsconfig.json").2 exhausted⟩

/-- A null base, octets that are no text, an extended path without a name and one with half of a
surrogate pair each stop a load on a disk without links, and none of them is reported. -/
theorem load_unreported :
    ((configDisk basedOnNull []).LinkFree ∧
      ¬Reported (load (configDisk basedOnNull []) "tsconfig.json")) ∧
    ((configDisk extendsBase [0xff]).LinkFree ∧
      ¬Reported (load (configDisk extendsBase [0xff]) "tsconfig.json")) ∧
    ((configDisk extendsRoot []).LinkFree ∧
      ¬Reported (load (configDisk extendsRoot []) "tsconfig.json")) ∧
    ((configDisk extendsHalf []).LinkFree ∧
      ¬Reported (load (configDisk extendsHalf []) "tsconfig.json")) := by
  refine ⟨⟨configDisk_linkFree _ _, ?_⟩, ⟨configDisk_linkFree _ _, ?_⟩,
    ⟨configDisk_linkFree _ _, ?_⟩, configDisk_linkFree _ _, ?_⟩ <;> decide +kernel

end Relink.Config
