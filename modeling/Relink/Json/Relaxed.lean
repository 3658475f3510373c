import Relink.Text.Blank

namespace Relink.Json.Relaxed

/-- Splits behind the closing quote, given the text behind the opening one. A backslash takes the
next character with it; with `oneLine` it may not stand at the end of a line. -/
def closeString (oneLine : Bool) : Text → Option (Text × Text)
  | [] => none
  | '"' :: rest => some (['"'], rest)
  | '\\' :: c :: rest =>
    if oneLine && c == '\n' then none
    else (closeString oneLine rest).map fun (body, rest) => ('\\' :: c :: body, rest)
  | ['\\'] => none
  | c :: rest => (closeString oneLine rest).map fun (body, rest) => (c :: body, rest)

def closeComment : Text → Option Text
  | [] => none
  | '*' :: '/' :: rest => some rest
  | _ :: rest => closeComment rest

theorem length_closeString {oneLine : Bool} {text body rest : Text}
    (h : closeString oneLine text = some (body, rest)) : rest.length < text.length := by
  fun_induction closeString oneLine text generalizing body rest with
  | case1 => simp at h
  | case2 tail => simp at h; simp [h.2]
  | case3 => simp at h
  | case4 c tail _ ih =>
    simp only [Option.map_eq_some_iff, Prod.mk.injEq, Prod.exists] at h
    obtain ⟨b, r, h, -, rfl⟩ := h
    have := ih h
    simp only [List.length_cons]
    omega
  | case5 => simp at h
  | case6 c tail _ _ _ ih =>
    simp only [Option.map_eq_some_iff, Prod.mk.injEq, Prod.exists] at h
    obtain ⟨b, r, h, -, rfl⟩ := h
    have := ih h
    simp only [List.length_cons]
    omega

theorem length_closeComment {text rest : Text} (h : closeComment text = some rest) :
    rest.length < text.length := by
  fun_induction closeComment text with
  | case1 => simp at h
  | case2 tail => simp at h; subst h; simp only [List.length_cons]; omega
  | case3 c tail _ ih => have := ih h; simp only [List.length_cons]; omega

theorem length_dropWhile_le (p : CodePoint → Bool) (text : Text) :
    (text.dropWhile p).length ≤ text.length := by
  induction text with
  | nil => simp
  | cons c rest ih =>
    simp only [List.dropWhile_cons]
    split
    · simp only [List.length_cons]; omega
    · simp

/-- Removes line comments, up to the line feed, and closed block comments. A string or comment that
is never closed is plain text from its first character on. -/
def stripComments : Text → Text
  | [] => []
  | '"' :: rest =>
    match _h : closeString false rest with
    | some (body, rest) => .char '"' :: body ++ stripComments rest
    | none => '"' :: stripComments rest
  | '/' :: '/' :: rest => stripComments (rest.dropWhile (· != '\n'))
  | '/' :: '*' :: rest =>
    match _h : closeComment rest with
    | some rest => stripComments rest
    | none => '/' :: stripComments ('*' :: rest)
  | c :: rest => c :: stripComments rest
termination_by text => text.length
decreasing_by
  all_goals simp only [List.length_cons]
  all_goals first
    | omega
    | (have shorter := length_closeString _h; omega)
    | (have shorter := length_closeComment _h; omega)
    | (have shorter := length_dropWhile_le (· != '\n') rest; omega)

def closingBracket? (text : Text) : Option (Text × Text) :=
  match text.dropWhile isBlank with
  | c :: rest =>
    if c == '\x7d' || c == ']' then some (text.takeWhile isBlank ++ [c], rest) else none
  | [] => none

theorem length_closingBracket? {text kept rest : Text}
    (h : closingBracket? text = some (kept, rest)) : rest.length < text.length := by
  have hle := length_dropWhile_le isBlank text
  unfold closingBracket? at h
  split at h
  · next c tail heq =>
    rw [heq, List.length_cons] at hle
    split at h
    · simp only [Option.some.injEq, Prod.mk.injEq] at h
      rw [← h.2]
      omega
    · simp at h
  · simp at h

def stripTrailingCommas : Text → Text
  | [] => []
  | '"' :: rest =>
    match _h : closeString true rest with
    | some (body, rest) => .char '"' :: body ++ stripTrailingCommas rest
    | none => '"' :: stripTrailingCommas rest
  | ',' :: rest =>
    match _h : closingBracket? rest with
    | some (kept, rest) => kept ++ stripTrailingCommas rest
    | none => ',' :: stripTrailingCommas rest
  | c :: rest => c :: stripTrailingCommas rest
termination_by text => text.length
decreasing_by
  all_goals simp only [List.length_cons]
  all_goals first
    | omega
    | (have shorter := length_closeString _h; omega)
    | (have shorter := length_closingBracket? _h; omega)

def toStrict (text : Text) : Text := stripTrailingCommas (stripComments text)

end Relink.Json.Relaxed
