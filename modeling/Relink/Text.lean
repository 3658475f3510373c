namespace Relink

abbrev Chars := List Char

/-- A character, or a lone half of a surrogate pair: the code point `0xd800 + index`. -/
inductive CodePoint
  | char (c : Char)
  | half (index : Fin 0x800)
  deriving DecidableEq, BEq, ReflBEq, LawfulBEq

abbrev Text := List CodePoint

instance : Coe Char CodePoint := ⟨.char⟩

instance : Coe String Chars := ⟨String.toList⟩

instance : Coe String Text := ⟨fun s => s.toList.map .char⟩

namespace CodePoint

def toNat : CodePoint → Nat
  | .char c => c.toNat
  | .half index => 0xd800 + index

def ofNat (n : Nat) : CodePoint :=
  if h : 0xd800 ≤ n ∧ n < 0xe000 then .half ⟨n - 0xd800, by omega⟩ else .char (.ofNat n)

def isDigit : CodePoint → Bool
  | .char c => c.isDigit
  | .half _ => false

def toLower : CodePoint → CodePoint
  | .char c => .char c.toLower
  | .half index => .half index

def toUpper : CodePoint → CodePoint
  | .char c => .char c.toUpper
  | .half index => .half index

@[simp] theorem toNat_char (c : Char) : (char c).toNat = c.toNat := rfl

end CodePoint

namespace Text

def ofNat (n : Nat) : Text := (Nat.toDigits 10 n).map .char

def ofInt : Int → Text
  | .ofNat n => ofNat n
  | .negSucc n => '-' :: ofNat (n + 1)

def joinWith (separator : Text) (parts : List Text) : Text := separator.intercalate parts

def splitAfterLast (p : CodePoint → Bool) (text : Text) : Text × Text :=
  let rest := text.reverse
  ((rest.dropWhile (!p ·)).reverse, (rest.takeWhile (!p ·)).reverse)

def trimLeft (p : CodePoint → Bool) (text : Text) : Text := text.dropWhile p

def trimRight (p : CodePoint → Bool) (text : Text) : Text := (text.reverse.dropWhile p).reverse

def trim (p : CodePoint → Bool) (text : Text) : Text := trimRight p (trimLeft p text)

private def replaceFrom (old new : Text) : Nat → Text → Text
  | _, [] => []
  | skip + 1, _ :: rest => replaceFrom old new skip rest
  | 0, c :: rest =>
    if old.isPrefixOf (c :: rest) then new ++ replaceFrom old new (old.length - 1) rest
    else c :: replaceFrom old new 0 rest

/-- Replaces every occurrence of `old`, taken from the left without overlap. An empty `old` stands
before each code point and at the end. -/
def replaceAll (text old new : Text) : Text :=
  if old.isEmpty then text.flatMap (fun c => new ++ [c]) ++ new else replaceFrom old new 0 text

private theorem replaceFrom_singleton (q : CodePoint) (new text : Text) :
    replaceFrom [q] new 0 text = text.flatMap (fun c => if c = q then new else [c]) := by
  induction text with
  | nil => rfl
  | cons c rest ih =>
    by_cases h : c = q
    · subst h; simp [replaceFrom, ih]
    · have : ¬ q = c := fun e => h e.symm
      simp [replaceFrom, ih, h, this]

theorem replaceAll_singleton (q : CodePoint) (new text : Text) :
    replaceAll text [q] new = text.flatMap (fun c => if c = q then new else [c]) := by
  simp [replaceAll, replaceFrom_singleton]

end Text

end Relink
