import Relink.Proofs.Path.DrivePath

namespace Relink

def CodePoint.isUpper : CodePoint → Bool
  | .char c => c.isUpper
  | .half _ => false

theorem CodePoint.toLower_eq_self {c : CodePoint} (h : c.isUpper = false) : c.toLower = c := by
  cases c with
  | char c => exact congrArg char (dif_neg (of_decide_eq_false h))
  | half index => rfl

namespace Path

/-- A text that means the same in both flavours: no capital letters, and no backslash or colon. -/
def IsPortable (text : Text) : Prop :=
  ∀ c ∈ text, c.toNat < 0x80 ∧ c.isUpper = false ∧ c ≠ '\\' ∧ c ≠ ':'

instance (text : Text) : Decidable (IsPortable text) :=
  List.decidableBAll
    (fun c : CodePoint => c.toNat < 0x80 ∧ c.isUpper = false ∧ c ≠ '\\' ∧ c ≠ ':') text

theorem IsPortable.noBackslash {text : Text} (h : IsPortable text) : .char '\\' ∉ text :=
  fun hmem => (h _ hmem).2.2.1 rfl

theorem IsPortable.noColon {text : Text} (h : IsPortable text) : .char ':' ∉ text :=
  fun hmem => (h _ hmem).2.2.2 rfl

theorem IsPortable.of_mem_names {location : Posix.Location} (h : IsPortable location.text)
    {name : Text} (hname : name ∈ location.names) : IsPortable name :=
  fun c hc => h c (Posix.Location.mem_text_of_mem hname hc)

end Path

namespace Path.Windows

variable {path more : Text}

def ofSlashes (path : Text) : Text := 'C' :: ':' :: backslashes path

theorem ofSlashes_append (a b : Text) : ofSlashes (a ++ b) = ofSlashes a ++ backslashes b := by
  simp [ofSlashes]

theorem ofSlashes_inj {other : Text} (h : .char '\\' ∉ path) (h' : .char '\\' ∉ other) :
    ofSlashes path = ofSlashes other ↔ path = other := by
  constructor
  · intro heq
    have hbackslashes : backslashes path = backslashes other := by simpa [ofSlashes] using heq
    rw [← forwardSlashes_backslashes h, hbackslashes, forwardSlashes_backslashes h']
  · rintro rfl
    rfl

theorem splitDrive_cons (path : Text) :
    splitDrive ('C' :: ':' :: path) = ([.char 'C', .char ':'], path) := rfl

theorem normalize_ofSlashes {written : Text} (hroot : Posix.root path = [.char '/'])
    (h : .char '\\' ∉ path) (hwritten : backslashes written = backslashes path) :
    normalize ('C' :: ':' :: written) = ofSlashes (Posix.normalize path) := by
  have hstart : startsAtRoot written = true := by
    rw [← startsAtRoot_backslashes, hwritten, startsAtRoot_backslashes, startsAtRoot_eq h,
      Posix.isAbsolute_of_root hroot]
  have hplace : placeOf written = .follow .top path := by
    rw [placeOf, forwardSlashes_eq_of_backslashes hwritten, forwardSlashes_eq_self h]
  rw [normalize_letter (by decide) hstart, hplace, ofSlashes, Posix.Location.normalize_eq hroot]

structure IsLocal (path : Text) : Prop where
  noColon : .char ':' ∉ path
  noBackslash : .char '\\' ∉ path
  noShare : ¬("//" : Text) <+: path

theorem IsLocal.splitDrive_eq (h : IsLocal path) : splitDrive path = ([], path) := by
  refine splitDrive_eq_nil h.noColon ?_
  rintro a b rest rfl ha
  rw [isSeparator_of_mem h.noBackslash (by simp)] at ha ⊢
  obtain rfl : a = '/' := by simpa [Posix.isSeparator] using ha
  by_contra hb
  obtain rfl : b = '/' := by simpa [Posix.isSeparator] using hb
  exact h.noShare ⟨rest, rfl⟩

theorem suffix_ofSlashes_iff {ending : Text} (h : IsLocal ending) (hslash : .char '/' ∉ ending) :
    ending <:+ ofSlashes path ↔ ending <:+ path := by
  have hback := backslashes_eq_self hslash
  constructor
  · intro hsuffix
    rw [ofSlashes, List.suffix_cons_iff, List.suffix_cons_iff] at hsuffix
    obtain rfl | rfl | ⟨front, hfront⟩ := hsuffix
    · exact absurd (by simp) h.noColon
    · exact absurd (by simp) h.noColon
    · obtain ⟨front, last, rfl, -, hlast⟩ := List.map_eq_append_iff.1 hfront.symm
      have hlastSlash : .char '/' ∉ last := by
        intro hmem
        exact h.noBackslash (hlast ▸ List.mem_map_of_mem hmem)
      rw [← hlast]
      exact ⟨front, congrArg (front ++ ·) (backslashes_eq_self hlastSlash)⟩
  · rintro ⟨front, rfl⟩
    exact ⟨ofSlashes front, by rw [ofSlashes_append, hback]⟩

theorem join_ofSlashes_absolute (h : IsLocal more) (habsolute : Posix.isAbsolute more = true) :
    join (ofSlashes path) more = .char 'C' :: .char ':' :: more := by
  have hstart : startsAtRoot more = true := by rw [startsAtRoot_eq h.noBackslash, habsolute]
  simp [join, ofSlashes, splitDrive_cons, h.splitDrive_eq, hstart]

theorem join_ofSlashes (hpath : .char '\\' ∉ path) (h : IsLocal more)
    (hrelative : Posix.isAbsolute more = false) :
    join (ofSlashes path) more =
      if path = [] ∨ path.getLast? = some (.char '/') then ofSlashes path ++ more
      else ofSlashes path ++ .char '\\' :: more := by
  have hstart : startsAtRoot more = false := by rw [startsAtRoot_eq h.noBackslash, hrelative]
  simp only [join, ofSlashes, splitDrive_cons, h.splitDrive_eq, hstart, Bool.false_eq_true,
    if_false, true_or, if_true]
  obtain rfl | ⟨front, last, rfl⟩ := List.eq_nil_or_concat path
  · simp
  · rw [List.concat_eq_append] at hpath ⊢
    have hlast : last ≠ '\\' := by
      rintro rfl
      simp at hpath
    by_cases hslash : last = '/'
    · simp [backslashes_cons, hslash, isSeparator]
    · simp [backslashes_cons, hslash, hlast, isSeparator]

theorem join_ofSlashes_name (hpath : .char '\\' ∉ path) (h : IsLocal more)
    (hslash : .char '/' ∉ more) :
    join (ofSlashes path) more = ofSlashes (Posix.join path more) := by
  have hrelative := Posix.isAbsolute_of_not_mem hslash
  rw [join_ofSlashes hpath h hrelative, Posix.join_relative path hrelative]
  split
  · rw [ofSlashes_append, backslashes_eq_self hslash]
  · rw [ofSlashes_append, backslashes_cons, backslashes_eq_self hslash]
    rfl

theorem normalize_join_ofSlashes (hpath : .char '\\' ∉ path) (h : IsLocal more)
    (hroot : Posix.root (Posix.join path more) = [.char '/']) :
    normalize (join (ofSlashes path) more) =
      ofSlashes (Posix.normalize (Posix.join path more)) := by
  have hjoin : .char '\\' ∉ Posix.join path more := by
    intro hmem
    obtain hmem | hmem := Posix.mem_join hmem
    · exact hpath hmem
    · exact h.noBackslash (by simpa using hmem)
  cases habsolute : Posix.isAbsolute more with
  | true =>
    rw [join_ofSlashes_absolute h habsolute]
    refine normalize_ofSlashes hroot hjoin ?_
    rw [Posix.join, if_pos habsolute]
  | false =>
    have hwritten := Posix.join_relative path habsolute
    rw [join_ofSlashes hpath h habsolute]
    split at hwritten
    · next hlast =>
      rw [if_pos hlast]
      refine normalize_ofSlashes hroot hjoin ?_
      rw [hwritten]
      simp
    · next hlast =>
      rw [if_neg hlast]
      refine normalize_ofSlashes hroot hjoin ?_
      rw [hwritten]
      simp [backslashes_cons]

theorem dirname_ofSlashes (h : .char '\\' ∉ path) :
    dirname (ofSlashes path) = ofSlashes (Posix.dirname path) := by
  obtain ⟨hcut, -, -⟩ := Text.splitAfterLast_spec Posix.isSeparator path
  have hhead : .char '\\' ∉ (path.splitAfterLast Posix.isSeparator).1 := by
    intro hmem
    exact h (hcut ▸ List.mem_append_left _ hmem)
  simp only [dirname, split, ofSlashes, splitDrive_cons, Posix.dirname,
    splitAfterLast_backslashes h, all_backslashes hhead, trimRight_backslashes hhead]
  split <;> rfl

theorem splitExtension_ofSlashes (h : .char '\\' ∉ path) (hslash : .char '/' ∈ path) :
    splitExtension (ofSlashes path) =
      (ofSlashes (Posix.splitExtension path).1, (Posix.splitExtension path).2) := by
  obtain ⟨directory, name, rfl, hname⟩ := Text.exists_cut_at_last hslash
  have hback : .char '\\' ∉ name := fun hmem => h (by simp [hmem])
  have hposix : Text.splitAfterLast Posix.isSeparator (directory ++ .char '/' :: name) =
      (directory ++ [.char '/'], name) := Text.splitAfterLast_cut hname
  have hwindows : Text.splitAfterLast isSeparator (ofSlashes (directory ++ .char '/' :: name)) =
      (ofSlashes (directory ++ [.char '/']), name) := by
    rw [List.append_cons, ofSlashes_append, backslashes_eq_self hname]
    refine Text.splitAfterLast_append ?_ ?_
    · intro c hc
      rw [ofSlashes_append, backslashes_cons, backslashes_nil, List.getLast?_concat] at hc
      cases hc
      rfl
    · intro c hc
      exact isSeparator_eq_false hback hname hc
  obtain ⟨hcut, -, -⟩ := Text.splitAfterLast_spec (· == .char '.') name
  simp only [splitExtension, Path.splitExtension, Posix.splitExtension, hposix, hwindows]
  split
  · rfl
  · next stem extension hne heq =>
    rw [heq] at hcut
    have hstem : .char '/' ∉ stem.dropLast := by
      intro hmem
      exact hname (hcut ▸ List.mem_append_left _ (List.dropLast_subset stem hmem))
    split
    · rfl
    · dsimp only
      rw [ofSlashes_append _ stem.dropLast, backslashes_eq_self hstem]

theorem absolute_ofSlashes (here : Text) (hroot : Posix.root path = [.char '/'])
    (h : .char '\\' ∉ path) :
    absolute here (ofSlashes path) = ofSlashes (Posix.normalize path) := by
  have habsolute : isAbsolute (ofSlashes path) = true := by
    obtain ⟨rest, rfl⟩ := List.head?_eq_some_iff.1 (eq_of_beq (Posix.isAbsolute_of_root hroot))
    rfl
  rw [absolute, if_pos habsolute]
  exact normalize_ofSlashes hroot h (backslashes_backslashes path)

theorem fold_eq_self (h : IsPortable path) (hslash : .char '/' ∉ path) : fold path = path := by
  rw [fold_ascii (fun c hc => (h c hc).1) hslash]
  calc path.map CodePoint.toLower = path.map id := by
        apply List.map_congr_left
        intro c hc
        exact CodePoint.toLower_eq_self (h c hc).2.1
    _ = path := List.map_id path

variable {start target : Posix.Location}

theorem steps_fold_eq (hstart : IsPortable start.text) (htarget : IsPortable target.text) :
    steps (fun a b => fold a = fold b) start.names target.names =
      steps (· = ·) start.names target.names := by
  have hfold {location : Posix.Location} (h : IsPortable location.text) :
      ∀ name ∈ location.names, fold name = name := by
    intro name hname
    exact fold_eq_self (h.of_mem_names hname) (location.noSlash name hname)
  rw [steps, steps, dropShared_congr]
  intro a ha b hb
  rw [hfold hstart a ha, hfold htarget b hb]

def DrivePath.ofLocation (location : Posix.Location) (h : IsPortable location.text) :
    DrivePath where
  letter := 'C'
  rest := backslashes (Text.joinWith ['/'] location.names)
  isLetter := rfl
  isAscii c hc := by
    obtain ⟨c, hmem, rfl⟩ := List.mem_map.1 hc
    split
    · decide
    · exact (h c (List.mem_cons_of_mem _ hmem)).1
  noColon hc := by
    obtain ⟨c, hmem, heq⟩ := List.mem_map.1 hc
    split at heq
    · cases heq
    · exact h.noColon (heq ▸ List.mem_cons_of_mem _ hmem)

theorem relative?_ofSlashes (here : Text) (hstart : IsPortable start.text)
    (htarget : IsPortable target.text) :
    relative? here (ofSlashes target.text) (ofSlashes start.text) =
      some (backslashes (start.wayTo target)) := by
  have hplace {location : Posix.Location} (h : IsPortable location.text) :
      (DrivePath.ofLocation location h).place = location := by
    change placeOf (backslashes location.text) = location
    rw [placeOf, forwardSlashes_backslashes h.noBackslash, Posix.Location.top_follow_text]
  have hway := (DrivePath.relative?_text (.ofLocation start hstart) (.ofLocation target htarget)
    here).trans (if_pos rfl)
  rw [DrivePath.way, hplace hstart, hplace htarget, steps_fold_eq hstart htarget,
    ← Posix.Location.wayTo_eq] at hway
  exact hway

end Path.Windows

end Relink
