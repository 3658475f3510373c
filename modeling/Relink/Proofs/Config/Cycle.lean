import Relink.Proofs.Config.Inheritance
import Relink.Proofs.Storage.Resolving

/-!
Loading a configuration ends. Each file that it reads has an identity of its own, links or not, and
it stops for a cycle exactly when it comes back to a file that it has read.
-/

namespace Relink.Config

open Disk (pathOf)

variable {disk : Disk} {path parent last : Path.Parts} {seen reals : List Text} {real : Text}
  {file : File} {contents : Json} {stop : Stop} {result : Except Stop (List File)}

structure Call where
  path : Path.Parts
  fresh? : Option Text

/-- The calls that are made for a path and for what it extends, with nothing to bound them, and what
they come to. -/
inductive Run (disk : Disk) : List Text → Path.Parts → List Call → Except Stop (List File) → Prop
  | unknown {seen : List Text} {path : Path.Parts} {stop : Stop}
      (h : identity disk path = .error stop) : Run disk seen path [⟨path, none⟩] (.error stop)
  | circular {seen : List Text} {path : Path.Parts} {real : Text}
      (known : identity disk path = .ok real) (met : real ∈ seen) :
      Run disk seen path [⟨path, none⟩] (.error (.fault (.circular path.toText)))
  | unread {seen : List Text} {path : Path.Parts} {real : Text} {stop : Stop}
      (known : identity disk path = .ok real) (fresh : real ∉ seen)
      (read : File.read disk path = .error stop) :
      Run disk seen path [⟨path, some real⟩] (.error stop)
  | last {seen : List Text} {path : Path.Parts} {real : Text} {file : File}
      (known : identity disk path = .ok real) (fresh : real ∉ seen)
      (read : File.read disk path = .ok file) (alone : file.parent? = none) :
      Run disk seen path [⟨path, some real⟩] (.ok [file])
  | extending {seen : List Text} {path parent : Path.Parts} {real : Text} {file : File}
      {calls : List Call} {result : Except Stop (List File)}
      (known : identity disk path = .ok real) (fresh : real ∉ seen)
      (read : File.read disk path = .ok file) (extended : file.parent? = some parent)
      (h : Run disk (real :: seen) parent calls result) :
      Run disk seen path (⟨path, some real⟩ :: calls) (result.map (file :: ·))

inductive Reads (disk : Disk) : Path.Parts → List Text → Path.Parts → Prop
  | here (path : Path.Parts) : Reads disk path [] path
  | above {path parent last : Path.Parts} {real : Text} {reals : List Text} {file : File}
      (known : identity disk path = .ok real) (read : File.read disk path = .ok file)
      (extended : file.parent? = some parent) (h : Reads disk parent reals last) :
      Reads disk path (real :: reals) last

theorem identity_eq_of_finds {place : List Text} (rooted : path.Rooted)
    (h : disk.Finds path.toText place) :
    disk.Plain place ∧ identity disk path = .ok (pathOf place) := by
  obtain ⟨plain, hreal⟩ := h.realPath_eq (Path.Parts.isAbsolute_toText rooted)
  refine ⟨plain, ?_⟩
  simp only [identity, findSome?_obstacle?_eq_none.2 h.nameable.usable, hreal]
  split
  · next hlinks => exact absurd hlinks plain.locate_ne_tooManyLinks
  · rfl

theorem exists_octets_of_readObject (h : readObject disk path = .ok contents) :
    ∃ octets, ∃ text : Chars, disk.readBytes path.toText = .ok octets ∧
      Utf8.decode octets = .ok text ∧
      Json.parse (Json.Relaxed.toStrict (text.unifyLineEnds.map .char)) = .ok contents := by
  unfold readObject Disk.readText at h
  cases hfile : disk.readBytes path.toText with
  | error fault =>
    simp only [hfile] at h
    split at h <;> cases h
  | ok octets =>
  cases hdecode : Utf8.decode octets with
  | error malformed => simp [hfile, hdecode] at h
  | ok text =>
  cases hparse : Json.parse (Json.Relaxed.toStrict (text.unifyLineEnds.map .char)) with
  | error failure => simp [hfile, hdecode, hparse] at h
  | ok value =>
    refine ⟨octets, text, rfl, hdecode, ?_⟩
    simp only [hfile, hdecode, hparse] at h
    rw [hparse]
    cases value with
    | object fields => exact congrArg Except.ok (Except.ok.inj h)
    | _ => cases h

theorem exists_identity_of_readObject (rooted : path.Rooted)
    (h : readObject disk path = .ok contents) :
    ∃ real ∈ disk.places, identity disk path = .ok real := by
  obtain ⟨octets, -, hfile, -⟩ := exists_octets_of_readObject h
  obtain ⟨place, hfinds, hnode⟩ := Disk.readBytes_eq_ok_iff_finds.1 hfile
  obtain ⟨plain, known⟩ := identity_eq_of_finds rooted hfinds
  refine ⟨pathOf place, ?_, known⟩
  have hplace := Disk.mem_places_of_lookup hnode
  rwa [plain.collapse_eq] at hplace

theorem exists_identity_of_read (rooted : path.Rooted) (h : File.read disk path = .ok file) :
    ∃ real ∈ disk.places, identity disk path = .ok real := by
  obtain ⟨contents, options, checked, -⟩ := read_eq_ok h
  exact exists_identity_of_readObject rooted checked.read

theorem identity_ne_circular (shown : Text) :
    identity disk path ≠ .error (.fault (.circular shown)) := by
  unfold identity
  split
  · simp
  · simp
  · dsimp only
    split <;> simp

theorem readObject_ne_circular (shown : Text) :
    readObject disk path ≠ .error (.fault (.circular shown)) := by
  unfold readObject
  dsimp only
  repeat' split
  all_goals simp

theorem checkPaths_ne_circular (source : Text) (value? : Option Json) (shown : Text) :
    checkPaths source value? ≠ .error (.circular shown) := by
  unfold checkPaths
  repeat' split
  all_goals simp

theorem checkText_ne_circular (source name : Text) (value? : Option Json) (shown : Text) :
    checkText source name value? ≠ .error (.circular shown) := by
  unfold checkText
  repeat' split
  all_goals simp

theorem check_ne_circular (source : Text) (value : Json) (shown : Text) :
    check source value ≠ .error (.circular shown) := by
  unfold check
  split
  · intro h
    obtain h | ⟨_, -, h⟩ := bind_eq_error h
    · exact checkPaths_ne_circular _ _ _ h
    obtain h | ⟨_, -, h⟩ := bind_eq_error h
    · exact checkText_ne_circular _ _ _ _ h
    obtain h | ⟨_, -, h⟩ := bind_eq_error h
    · exact checkText_ne_circular _ _ _ _ h
    cases h
  · simp

theorem settleBase_ne_circular (options : Fields Json) (shown : Text) :
    settleBase path options ≠ .error (.fault (.circular shown)) := by
  unfold settleBase
  split <;> simp

theorem parentOf_ne_circular (value? : Option Json) (shown : Text) :
    parentOf path value? ≠ .error (.fault (.circular shown)) := by
  unfold parentOf
  dsimp only
  split
  · simp
  · split_ifs
    · simp
    · simp
    · split <;> simp
  · split_ifs <;> simp

theorem read_ne_circular (shown : Text) :
    File.read disk path ≠ .error (.fault (.circular shown)) := by
  intro h
  obtain h | ⟨contents, -, h⟩ := bind_eq_error h
  · exact readObject_ne_circular shown h
  obtain h | ⟨options, -, h⟩ := bind_eq_error h
  · obtain ⟨fault, h, hfault⟩ := mapError_eq_error.1 h
    cases hfault
    exact check_ne_circular _ _ _ h
  obtain h | ⟨settled, -, h⟩ := bind_eq_error h
  · exact settleBase_ne_circular _ _ h
  obtain h | ⟨parent?, -, h⟩ := bind_eq_error h
  · exact parentOf_ne_circular _ _ h
  cases h

theorem rooted_of_read (rooted : path.Rooted) (h : File.read disk path = .ok file)
    (extended : file.parent? = some parent) : parent.Rooted := by
  obtain ⟨contents, options, -, -, hparent⟩ := read_eq_ok h
  rw [extended] at hparent
  exact rooted_parentOf rooted hparent

theorem exists_run {reads : Nat} (room : Room disk reads seen) (rooted : path.Rooted) :
    ∃ calls result, Run disk seen path calls result := by
  induction reads generalizing seen path with
  | zero => exact absurd room.pos (Nat.lt_irrefl 0)
  | succ reads ih =>
    cases known : identity disk path with
    | error stop => exact ⟨_, _, .unknown known⟩
    | ok real =>
    by_cases fresh : real ∈ seen
    · exact ⟨_, _, .circular known fresh⟩
    cases hread : File.read disk path with
    | error stop => exact ⟨_, _, .unread known fresh hread⟩
    | ok file =>
    cases hparent : file.parent? with
    | none => exact ⟨_, _, .last known fresh hread hparent⟩
    | some parent =>
      obtain ⟨real', hplace, known'⟩ := exists_identity_of_read rooted hread
      obtain rfl : real = real' := Except.ok.inj (known.symm.trans known')
      obtain ⟨calls, result, h⟩ := ih (room.cons fresh hplace) (rooted_of_read rooted hread hparent)
      exact ⟨_, _, .extending known fresh hread hparent h⟩

namespace Run

variable {calls : List Call}

theorem eq_chainFrom (h : Run disk seen path calls result) (rooted : path.Rooted) {reads : Nat}
    (room : Room disk reads seen) :
    result = chainFrom disk reads seen path ∧ calls.length ≤ reads := by
  induction h generalizing reads with
  | unknown hunknown =>
    obtain ⟨reads, rfl⟩ := Nat.exists_eq_succ_of_ne_zero room.pos.ne'
    refine ⟨?_, room.pos⟩
    rw [chainFrom, hunknown]
    rfl
  | circular known met =>
    obtain ⟨reads, rfl⟩ := Nat.exists_eq_succ_of_ne_zero room.pos.ne'
    refine ⟨?_, room.pos⟩
    rw [chainFrom_succ known, if_pos met]
  | unread known fresh hread =>
    obtain ⟨reads, rfl⟩ := Nat.exists_eq_succ_of_ne_zero room.pos.ne'
    refine ⟨?_, room.pos⟩
    rw [chainFrom_succ known, if_neg fresh, hread]
    rfl
  | last known fresh hread alone =>
    obtain ⟨reads, rfl⟩ := Nat.exists_eq_succ_of_ne_zero room.pos.ne'
    refine ⟨?_, room.pos⟩
    rw [chainFrom_succ known, if_neg fresh, hread, ok_bind, alone]
  | @extending seen path parent real file calls result known fresh hread extended _ ih =>
    obtain ⟨reads, rfl⟩ := Nat.exists_eq_succ_of_ne_zero room.pos.ne'
    obtain ⟨real', hplace, known'⟩ := exists_identity_of_read rooted hread
    obtain rfl : real = real' := Except.ok.inj (known.symm.trans known')
    obtain ⟨rfl, hlength⟩ := ih (rooted_of_read rooted hread extended) (room.cons fresh hplace)
    refine ⟨?_, Nat.succ_le_succ hlength⟩
    rw [chainFrom_succ known, if_neg fresh, hread, ok_bind, extended]
    dsimp only
    cases chainFrom disk reads (real :: seen) parent <;> rfl

theorem nodup (h : Run disk seen path calls result) :
    (calls.filterMap (·.fresh?)).Nodup ∧ ∀ real ∈ calls.filterMap (·.fresh?), real ∉ seen := by
  induction h with
  | unknown | circular => simp
  | unread _ fresh | last _ fresh => simpa using fresh
  | @extending seen path parent real file calls result _ fresh _ _ _ ih =>
    obtain ⟨nodup, unseen⟩ := ih
    change (real :: calls.filterMap (·.fresh?)).Nodup ∧
      ∀ other ∈ real :: calls.filterMap (·.fresh?), other ∉ seen
    refine ⟨List.nodup_cons.2 ⟨?_, nodup⟩, List.forall_mem_cons.2 ⟨fresh, ?_⟩⟩
    · intro hmem
      exact unseen real hmem List.mem_cons_self
    · intro other hother hmem
      exact unseen other hother (List.mem_cons_of_mem _ hmem)

theorem circular_iff (h : Run disk seen path calls result) :
    (∃ shown, result = .error (.fault (.circular shown))) ↔
      ∃ reals last real, Reads disk path reals last ∧ identity disk last = .ok real ∧
        (real ∈ reals ∨ real ∈ seen) := by
  induction h with
  | @unknown seen path stop hunknown =>
    refine iff_of_false ?_ ?_
    · rintro ⟨shown, hshown⟩
      cases hshown
      exact identity_ne_circular shown hunknown
    · rintro ⟨reals, last, real, hreads, known, -⟩
      cases hreads with
      | here => cases hunknown.symm.trans known
      | above known' => cases hunknown.symm.trans known'
  | @circular seen path real known met =>
    exact iff_of_true ⟨path.toText, rfl⟩ ⟨[], path, real, .here path, known, .inr met⟩
  | @unread seen path real stop known fresh hread =>
    refine iff_of_false ?_ ?_
    · rintro ⟨shown, hshown⟩
      cases hshown
      exact read_ne_circular shown hread
    · rintro ⟨reals, last, real', hreads, known', hmet⟩
      cases hreads with
      | here =>
        cases known.symm.trans known'
        exact fresh (hmet.resolve_left List.not_mem_nil)
      | above _ hread' => cases hread.symm.trans hread'
  | @last seen path real file known fresh hread alone =>
    refine iff_of_false (by simp) ?_
    rintro ⟨reals, last, real', hreads, known', hmet⟩
    cases hreads with
    | here =>
      cases known.symm.trans known'
      exact fresh (hmet.resolve_left List.not_mem_nil)
    | above _ hread' extended =>
      cases hread.symm.trans hread'
      cases alone.symm.trans extended
  | @extending seen path parent real file calls result known fresh hread extended _ ih =>
    have hmap : (∃ shown, result.map (file :: ·) = .error (.fault (.circular shown))) ↔
        ∃ shown, result = .error (.fault (.circular shown)) := by
      cases result <;> simp [Except.map]
    rw [hmap, ih]
    constructor
    · rintro ⟨reals, last, real', hreads, known', hmet⟩
      refine ⟨_, last, real', .above known hread extended hreads, known', ?_⟩
      simp only [List.mem_cons] at hmet ⊢
      tauto
    · rintro ⟨reals, last, real', hreads, known', hmet⟩
      cases hreads with
      | here =>
        cases known.symm.trans known'
        exact absurd (hmet.resolve_left List.not_mem_nil) fresh
      | above known'' hread' extended' hreads =>
        cases known.symm.trans known''
        cases hread.symm.trans hread'
        cases extended.symm.trans extended'
        refine ⟨_, last, real', hreads, known', ?_⟩
        simp only [List.mem_cons] at hmet ⊢
        tauto

end Run

theorem Reads.rooted (h : Reads disk path reals last) (rooted : path.Rooted) : last.Rooted := by
  induction h with
  | here => exact rooted
  | above _ hread extended _ ih => exact ih (rooted_of_read rooted hread extended)

theorem identity_eq_iff {path' : Path.Parts} {place place' : List Text} (rooted : path.Rooted)
    (rooted' : path'.Rooted) (h : disk.Finds path.toText place)
    (h' : disk.Finds path'.toText place') :
    identity disk path = identity disk path' ↔ place = place' := by
  obtain ⟨plain, known⟩ := identity_eq_of_finds rooted h
  obtain ⟨plain', known'⟩ := identity_eq_of_finds rooted' h'
  rw [known, known']
  constructor
  · intro heq
    exact plain.eq_of_pathOf plain' (Except.ok.inj heq)
  · rintro rfl
    rfl

def chain (disk : Disk) (path : Path.Parts) : Except Stop (List File) :=
  chainFrom disk (disk.files.length + 1) [] path

def linkedDisk : Disk where
  nodes := [
    (["p"], .directory),
    (["p", "tsconfig.json"], .file (Chars.utf8 "\x7b \"extends\": \"../q/again/./tsconfig\" \x7d")),
    (["q"], .directory),
    (["q", "again"], .link "../p")]
  here := ["p"]

end Relink.Config
