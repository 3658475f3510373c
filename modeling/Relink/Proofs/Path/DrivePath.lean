import Mathlib.Data.List.Forall2
import Relink.Proofs.Path.Relative
import Relink.Proofs.Path.Windows

namespace Relink.Path.Windows

open Posix (Location wayOf)

variable {letter : CodePoint} {path more : Text}

def placeOf (path : Text) : Location := .follow .top (Flavour.windows.forwardSlashes path)

theorem splitDrive_letter (hletter : isSeparator letter = false) (path : Text) :
    splitDrive (letter :: ':' :: path) = ([letter, ':'], path) := by
  simp [splitDrive, hletter]

theorem backslashes_letter (hletter : isSeparator letter = false) (path : Text) :
    backslashes (letter :: ':' :: path) = letter :: ':' :: backslashes path := by
  have hslash : letter ≠ '/' := by
    rintro rfl
    cases hletter
  simp [backslashes_cons, hslash]

theorem isAbsolute_forwardSlashes (path : Text) :
    Posix.isAbsolute (Flavour.windows.forwardSlashes path) = startsAtRoot path := by
  rw [← startsAtRoot_eq (backslash_not_mem_forwardSlashes path), ← startsAtRoot_backslashes,
    backslashes_forwardSlashes, startsAtRoot_backslashes]

theorem normalize_letter (hletter : isSeparator letter = false)
    (hstart : startsAtRoot path = true) :
    normalize (letter :: ':' :: path) = letter :: ':' :: backslashes (placeOf path).text := by
  have hcomponents : components (backslashes path) =
      Posix.components (Flavour.windows.forwardSlashes path) := by
    rw [← components_backslashes (backslash_not_mem_forwardSlashes path),
      backslashes_forwardSlashes]
  simp only [normalize, backslashes_letter hletter, splitDrive_letter hletter,
    startsAtRoot_backslashes, hstart, hcomponents]
  simp [Location.text, backslashes_cons, backslashes_joinWith (placeOf path).noSlash]
  rfl

theorem exists_join_letter (hletter : isSeparator letter = false)
    (hstart : startsAtRoot path = true) (hdrive : splitDrive more = ([], more))
    (hmore : startsAtRoot more = false) :
    ∃ rest, join (letter :: ':' :: path) more = letter :: ':' :: rest ∧ startsAtRoot rest = true ∧
      placeOf rest = (placeOf path).follow (Flavour.windows.forwardSlashes more) := by
  have hrelative : Posix.isAbsolute (Flavour.windows.forwardSlashes more) = false := by
    rw [isAbsolute_forwardSlashes, hmore]
  obtain rfl | ⟨front, last, rfl⟩ := List.eq_nil_or_concat path
  · cases hstart
  rw [List.concat_eq_append] at hstart ⊢
  have hne : Flavour.windows.forwardSlashes (front ++ [last]) ≠ [] := by
    rw [forwardSlashes_append]
    exact List.append_ne_nil_of_right_ne_nil _ (List.cons_ne_nil _ _)
  have hplace {rest : Text} (h : Flavour.windows.forwardSlashes rest =
      Posix.join (Flavour.windows.forwardSlashes (front ++ [last]))
        (Flavour.windows.forwardSlashes more)) :
      placeOf rest = (placeOf (front ++ [last])).follow (Flavour.windows.forwardSlashes more) := by
    apply Location.ext
    simp only [placeOf, Location.follow, h, Posix.foldl_push_components_join hne hrelative,
      List.reverse_reverse]
  have hroot (rest : Text) : startsAtRoot (front ++ [last] ++ rest) = true := by
    rw [← hstart]
    cases front <;> rfl
  by_cases hlast : isSeparator last = true
  · refine ⟨front ++ [last] ++ more, ?_, hroot more, hplace ?_⟩
    · simp [join, splitDrive_letter hletter, hdrive, hmore, hlast]
    · have hslash : (Flavour.windows.forwardSlashes (front ++ [last])).getLast? =
          some (.char '/') := by
        obtain rfl | rfl : last = '\\' ∨ last = '/' := by simpa [isSeparator] using hlast
        · simp [Flavour.forwardSlashes]
        · simp [Flavour.forwardSlashes]
      rw [Posix.join_relative _ hrelative, if_pos (.inr hslash), ← forwardSlashes_append]
  · refine ⟨front ++ [last] ++ .char '\\' :: more, ?_, hroot _, hplace ?_⟩
    · simp [join, splitDrive_letter hletter, hdrive, hmore, hlast]
    · obtain ⟨hback, hforward⟩ : last ≠ '\\' ∧ last ≠ '/' := by simpa [isSeparator] using hlast
      have hslash : (Flavour.windows.forwardSlashes (front ++ [last])).getLast? ≠
          some (.char '/') := by
        simp [Flavour.forwardSlashes, hback, hforward]
      rw [Posix.join_relative _ hrelative, if_neg (not_or.2 ⟨hne, hslash⟩), forwardSlashes_append]
      rfl

theorem foldl_join_wayOf {first : Text} {parts : List Text}
    (h : ∀ part ∈ first :: parts, IsWay part ∧ .char '/' ∉ part) :
    parts.foldl join first = backslashes (wayOf (first :: parts)) := by
  obtain ⟨⟨hfirst, -⟩, hparts⟩ := List.forall_mem_cons.1 h
  rw [foldl_join_eq hfirst fun part hpart => (hparts part hpart).1, wayOf,
    backslashes_joinWith fun part hpart => (h part hpart).2]
  exact List.cons_ne_nil first parts

theorem fold_ascii {text : Text} (hascii : ∀ c ∈ text, c.toNat < 0x80) (hslash : .char '/' ∉ text) :
    fold text = text.map CodePoint.toLower := by
  rw [fold, backslashes_eq_self hslash, Text.lower_ascii hascii]

theorem isAscii_of_all {text : Text} (h : text.all (·.toNat < 0x80) = true) :
    ∀ c ∈ text, c.toNat < 0x80 := fun c hc => of_decide_eq_true (List.all_eq_true.1 h c hc)

structure DrivePath where
  letter : Char
  rest : Text
  isLetter : letter.isAlpha = true
  isAscii : ∀ c ∈ rest, c.toNat < 0x80
  noColon : .char ':' ∉ rest

namespace DrivePath

def text (path : DrivePath) : Text := .char path.letter :: ':' :: '\\' :: path.rest

def place (path : DrivePath) : Location := placeOf ('\\' :: path.rest)

variable (path start target : DrivePath)

theorem isSeparator_letter : isSeparator path.letter = false := by
  have h := path.isLetter
  have hback : path.letter ≠ '\\' := fun heq => by simp [heq] at h
  have hforward : path.letter ≠ '/' := fun heq => by simp [heq] at h
  simp [isSeparator, hback, hforward]

theorem normalize_text :
    normalize path.text = .char path.letter :: .char ':' :: backslashes path.place.text :=
  normalize_letter path.isSeparator_letter rfl

theorem mem_rest {name : Text} {c : CodePoint} (hname : name ∈ path.place.names) (hc : c ∈ name) :
    c ∈ path.rest ∧ c ≠ '/' ∧ c ≠ '\\' := by
  have hslash : c ≠ '/' := fun heq => path.place.noSlash name hname (heq ▸ hc)
  obtain hname | ⟨hname, -⟩ := mem_foldl_push (List.mem_reverse.1 hname)
  · cases hname
  obtain ⟨other, hother, hwritten⟩ := List.mem_map.1 (Text.mem_of_mem_splitOn hname hc)
  split at hwritten
  · exact absurd hwritten.symm hslash
  · next hback =>
    subst hwritten
    have hback : other ≠ '\\' := by simpa using hback
    exact ⟨(List.mem_cons.1 hother).resolve_left hback, hslash, hback⟩

theorem noBackslash_place : .char '\\' ∉ path.place.text := by
  intro h
  obtain h | h := List.mem_cons.1 h
  · cases h
  · obtain h | ⟨name, hname, h⟩ := Text.mem_of_mem_joinWith h
    · simp at h
    · exact (path.mem_rest hname h).2.2 rfl

theorem absolute_normalize (here : Text) :
    absolute here (normalize path.text) =
      .char path.letter :: .char ':' :: backslashes path.place.text := by
  have hstart : startsAtRoot (backslashes path.place.text) = true := rfl
  have hplace : placeOf (backslashes path.place.text) = path.place := by
    rw [placeOf, forwardSlashes_backslashes path.noBackslash_place, Location.top_follow_text]
  have habsolute : isAbsolute (.char path.letter :: ':' :: backslashes path.place.text) = true := by
    simp [isAbsolute, Location.text, backslashes_cons, isSeparator]
  rw [normalize_text, absolute, if_pos habsolute, normalize_letter path.isSeparator_letter hstart,
    hplace]

theorem isAscii_letter : path.letter.toNat < 0x80 := by
  have h : (path.letter.isUpper || path.letter.isLower) = true := path.isLetter
  obtain h | h := Bool.or_eq_true_iff.1 h
  · have hle : path.letter.val ≤ 'Z'.val := (of_decide_eq_true h).2
    exact (UInt32.le_iff_toNat_le.1 hle).trans_lt (by decide)
  · have hle : path.letter.val ≤ 'z'.val := of_decide_eq_true (Bool.and_eq_true_iff.1 h).2
    exact (UInt32.le_iff_toNat_le.1 hle).trans_lt (by decide)

theorem fold_drive : fold [.char path.letter, .char ':'] =
    [.char path.letter.toLower, .char ':'] := by
  have hslash : CodePoint.char '/' ∉ [.char path.letter, .char ':'] := by
    have hseparator := path.isSeparator_letter
    simp only [List.mem_cons, not_or]
    refine ⟨?_, by decide, List.not_mem_nil⟩
    intro heq
    rw [← heq] at hseparator
    cases hseparator
  rw [fold_ascii (by simp [path.isAscii_letter]) hslash]
  rfl

def way (start target : DrivePath) : Text :=
  wayOf (steps (fun a b => fold a = fold b) start.place.names target.place.names)

theorem mem_step {same : Text → Text → Bool} {step : Text} {c : CodePoint}
    (hstep : step ∈ steps same start.place.names target.place.names) (hc : c ∈ step) :
    c ≠ ':' ∧ c ≠ '\\' := by
  obtain rfl | hstep := mem_steps hstep
  · obtain rfl : c = '.' := by simpa using hc
    decide
  · obtain ⟨hrest, -, hback⟩ := target.mem_rest hstep hc
    exact ⟨fun heq => target.noColon (heq ▸ hrest), hback⟩

theorem isWay_of_mem_steps (same : Text → Text → Bool) :
    ∀ step ∈ steps same start.place.names target.place.names, IsWay step ∧ .char '/' ∉ step := by
  intro step hstep
  have hne := start.place.ne_nil_steps target.place step hstep
  have hslash := start.place.noSlash_steps target.place step hstep
  have hseparator : ∀ c ∈ step, isSeparator c = false := fun c hc =>
    isSeparator_eq_false (fun h => (start.mem_step target hstep h).2 rfl) hslash hc
  exact ⟨⟨fun h => (start.mem_step target hstep h).1 rfl, hne,
    fun c hc => hseparator c (List.mem_of_head? hc),
    fun c hc => hseparator c (List.mem_of_getLast? hc)⟩, hslash⟩

theorem mem_way {c : CodePoint} (h : c ∈ start.way target) : c ≠ ':' ∧ c ≠ '\\' := by
  obtain h | ⟨step, hstep, hc⟩ := Posix.mem_wayOf h
  · obtain rfl | rfl : c = '.' ∨ c = '/' := by simpa using h
    · decide
    · decide
  · exact start.mem_step target hstep hc

theorem isAbsolute_way : Posix.isAbsolute (start.way target) = false :=
  Posix.isAbsolute_wayOf (start.place.ne_nil_steps target.place)
    (start.place.noSlash_steps target.place)

theorem relative?_text (here : Text) : relative? here target.text start.text =
    if start.letter.toLower = target.letter.toLower then some (backslashes (start.way target))
    else none := by
  have hsplit (path : DrivePath) : splitDrive (absolute here (normalize path.text)) =
      ([.char path.letter, .char ':'], backslashes path.place.text) := by
    rw [path.absolute_normalize, splitDrive_letter path.isSeparator_letter]
  have hnames (path : DrivePath) : (components (backslashes path.place.text)).filter (· ≠ []) =
      path.place.names := by
    rw [components_backslashes path.noBackslash_place, Location.filter_components_text]
  have hne : target.text ≠ [] := List.cons_ne_nil _ _
  simp only [relative?, hsplit, hnames, fold_drive, hne, false_or]
  by_cases hletter : start.letter.toLower = target.letter.toLower
  · rw [if_neg (by simp [hletter]), if_pos hletter]
    have hway := start.isWay_of_mem_steps target fun a b => fold a = fold b
    rw [way]
    cases hsteps : steps (fun a b => fold a = fold b) start.place.names target.place.names with
    | nil => rfl
    | cons first parts => exact congrArg some (foldl_join_wayOf (hsteps ▸ hway))
  · rw [if_pos (by simp [hletter]), if_neg hletter]

theorem normalize_join {more : Text} (hcolon : .char ':' ∉ more) (hback : .char '\\' ∉ more)
    (hled : ("." : Text) <+: more) :
    normalize (join path.text more) =
      .char path.letter :: .char ':' :: backslashes (path.place.follow more).text := by
  obtain ⟨behind, rfl⟩ := hled
  have hdrive : splitDrive (("." : Text) ++ behind) = ([], ("." : Text) ++ behind) := by
    refine splitDrive_eq_nil hcolon ?_
    rintro a b rest heq ha
    obtain ⟨rfl, -⟩ := List.cons.inj heq
    cases ha
  obtain ⟨rest, hjoin, hstart, hplace⟩ :=
    @exists_join_letter path.letter ('\\' :: path.rest) _ path.isSeparator_letter rfl hdrive rfl
  rw [text, hjoin, normalize_letter path.isSeparator_letter hstart, hplace,
    forwardSlashes_eq_self hback]
  rfl

theorem forall₂_follow_way : List.Forall₂ (fun a b => fold a = fold b)
    (start.place.follow (start.way target)).names target.place.names := by
  obtain ⟨reached, hreached, hsteps⟩ := exists_foldl_push_steps (fun a b => fold a = fold b)
    (fun _ => decide_eq_true rfl) start.place.isName target.place.isName
  simp only [Location.follow, way]
  rw [Posix.foldl_push_components_wayOf fun step hstep =>
    (start.isWay_of_mem_steps target _ step hstep).2, hsteps, List.reverse_reverse]
  simpa only [decide_eq_true_eq] using hreached

theorem isAscii_place {name : Text} (hname : name ∈ path.place.names) :
    ∀ c ∈ name, c.toNat < 0x80 :=
  fun c hc => path.isAscii c (path.mem_rest hname hc).1

theorem isAscii_follow_way {name : Text}
    (hname : name ∈ (start.place.follow (start.way target)).names) :
    ∀ c ∈ name, c.toNat < 0x80 := by
  have hslash := fun step hstep =>
    (start.isWay_of_mem_steps target (fun a b => fold a = fold b) step hstep).2
  simp only [Location.follow, way] at hname
  rw [Posix.foldl_push_components_wayOf hslash, List.mem_reverse] at hname
  obtain hname | ⟨hname, -⟩ := mem_foldl_push hname
  · exact start.isAscii_place (List.mem_reverse.1 hname)
  · obtain rfl | hname := mem_steps hname
    · simp
    · exact target.isAscii_place hname

theorem lower_eq {a b : Location} (hletter : start.letter.toLower = target.letter.toLower)
    (ha : ∀ name ∈ a.names, ∀ c ∈ name, c.toNat < 0x80)
    (hb : ∀ name ∈ b.names, ∀ c ∈ name, c.toNat < 0x80)
    (hnames : List.Forall₂ (fun a b => fold a = fold b) a.names b.names) :
    Text.lower (.char start.letter :: ':' :: backslashes a.text) =
      Text.lower (.char target.letter :: ':' :: backslashes b.text) := by
  have htext {place : Location} (path : DrivePath)
      (h : ∀ name ∈ place.names, ∀ c ∈ name, c.toNat < 0x80) :
      Text.lower (.char path.letter :: ':' :: backslashes place.text) =
        .char path.letter.toLower :: .char ':' :: .char '\\' ::
          Text.joinWith ['\\'] (place.names.map fold) := by
    have hback : backslashes place.text = .char '\\' :: Text.joinWith ['\\'] place.names :=
      congrArg (CodePoint.char '\\' :: ·) (backslashes_joinWith place.noSlash)
    have hfold : place.names.map fold = place.names.map (·.map CodePoint.toLower) :=
      List.map_congr_left fun name hname => fold_ascii (h name hname) (place.noSlash name hname)
    have hascii : ∀ c ∈ .char path.letter :: .char ':' :: .char '\\' ::
        Text.joinWith ['\\'] place.names, c.toNat < 0x80 := by
      simp only [List.forall_mem_cons]
      refine ⟨path.isAscii_letter, by decide, by decide, ?_⟩
      intro c hc
      obtain hc | ⟨name, hname, hc⟩ := Text.mem_of_mem_joinWith hc
      · simp [List.mem_singleton.1 hc]
      · exact h name hname c hc
    rw [hback, Text.lower_ascii hascii, hfold]
    simp only [List.map_cons, Text.map_joinWith]
    rfl
  have hfolded : a.names.map fold = b.names.map fold := by
    rwa [← List.forall₂_eq_eq_eq, List.forall₂_map_left_iff, List.forall₂_map_right_iff]
  rw [htext start ha, htext target hb, hletter, hfolded]

end DrivePath

end Relink.Path.Windows
