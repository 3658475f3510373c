import Relink.Text.Quoted

/-!
UTF-8, written for text without lone halves of surrogate pairs, and read octet by octet. Octets that
form no character are reported as the longest run that a character could have begun with, so every
sequence of octets has exactly one reading.
-/

namespace Relink

abbrev Bytes := List UInt8

def Chars.utf8 (text : Chars) : Bytes := text.flatMap String.utf8EncodeChar

namespace Utf8

inductive Fault
  | startByte
  | continuationByte
  | endOfData
  deriving DecidableEq

structure Malformed where
  fault : Fault
  octet : UInt8
  start : Nat
  length : Nat
  deriving DecidableEq

def Fault.message : Fault → Text
  | .startByte => "invalid start byte"
  | .continuationByte => "invalid continuation byte"
  | .endOfData => "unexpected end of data"

private def hexOctet (b : UInt8) : Text :=
  [.char (Nat.digitChar (b.toNat / 16)), .char (Nat.digitChar (b.toNat % 16))]

def Malformed.message (m : Malformed) : Text :=
  let place : Text :=
    if m.length = 1 then "byte 0x" ++ hexOctet m.octet ++ " in position " ++ Text.ofNat m.start
    else "bytes in position " ++ Text.ofNat m.start ++ "-" ++ Text.ofNat (m.start + m.length - 1)
  "'utf-8' codec can't decode " ++ place ++ ": " ++ m.fault.message

def isContinuation (b : UInt8) : Bool := 0x80 ≤ b && b < 0xc0

/-- Whether `b` may follow the start octet `lead`: no overlong form, no surrogate, nothing above the
last code point. -/
def maySecond (lead b : UInt8) : Bool :=
  isContinuation b &&
    (if lead = 0xe0 then 0xa0 ≤ b
     else if lead = 0xed then b < 0xa0
     else if lead = 0xf0 then 0x90 ≤ b
     else if lead = 0xf4 then b < 0x90
     else true)

def low (b : UInt8) : Nat := b.toNat % 64

inductive Unit
  | char (c : Char)
  | bad (fault : Fault) (octet : UInt8) (length : Nat)
  deriving DecidableEq

def Unit.length : Unit → Nat
  | .char c => c.utf8Size
  | .bad _ _ length => length

def ofTwo (b b₁ : UInt8) : Unit := .char (.ofNat (b.toNat % 32 * 64 + low b₁))

def ofThree (b b₁ b₂ : UInt8) : Unit :=
  .char (.ofNat (b.toNat % 16 * 4096 + low b₁ * 64 + low b₂))

def ofFour (b b₁ b₂ b₃ : UInt8) : Unit :=
  .char (.ofNat (b.toNat % 8 * 262144 + low b₁ * 4096 + low b₂ * 64 + low b₃))

def unitAt (b : UInt8) (rest : Bytes) : Unit :=
  let bad (fault : Fault) (length : Nat) := Unit.bad fault b length
  if b < 0x80 then .char (.ofNat b.toNat)
  else if b < 0xc2 || 0xf5 ≤ b then bad .startByte 1
  else
    match rest with
    | [] => bad .endOfData 1
    | b₁ :: rest =>
      if !maySecond b b₁ then bad .continuationByte 1
      else if b < 0xe0 then ofTwo b b₁
      else
        match rest with
        | [] => bad .endOfData 2
        | b₂ :: rest =>
          if !isContinuation b₂ then bad .continuationByte 2
          else if b < 0xf0 then ofThree b b₁ b₂
          else
            match rest with
            | [] => bad .endOfData 3
            | b₃ :: _ =>
              if !isContinuation b₃ then bad .continuationByte 3 else ofFour b b₁ b₂ b₃

def unitsFrom : Nat → Nat → Bytes → List (Nat × Unit)
  | _, _, [] => []
  | skip + 1, position, _ :: rest => unitsFrom skip (position + 1) rest
  | 0, position, b :: rest =>
    let unit := unitAt b rest
    (position, unit) :: unitsFrom (unit.length - 1) (position + 1) rest

def units (bytes : Bytes) : List (Nat × Unit) := unitsFrom 0 0 bytes

def decode (bytes : Bytes) : Except Malformed Chars :=
  (units bytes).mapM fun
    | (_, .char c) => .ok c
    | (start, .bad fault octet length) => .error ⟨fault, octet, start, length⟩

def decodeLossy (bytes : Bytes) : Chars :=
  (units bytes).map fun
    | (_, .char c) => c
    | (_, .bad ..) => '\ufffd'

structure Unencodable where
  first : CodePoint
  start : Nat
  length : Nat
  deriving DecidableEq

def Unencodable.message (u : Unencodable) : Text :=
  let place : Text :=
    if u.length = 1 then
      "character '\\u" ++ (Text.hex 4 u.first.toNat).map CodePoint.char ++ "' in position " ++
        Text.ofNat u.start
    else "characters in position " ++ Text.ofNat u.start ++ "-" ++
      Text.ofNat (u.start + u.length - 1)
  "'utf-8' codec can't encode " ++ place ++ ": surrogates not allowed"

inductive Defect
  | malformed (malformed : Malformed)
  | unencodable (unencodable : Unencodable)
  deriving DecidableEq

def Defect.message : Defect → Text
  | .malformed m => m.message
  | .unencodable u => u.message

end Utf8

def CodePoint.isHalf : CodePoint → Bool
  | .char _ => false
  | .half _ => true

def CodePoint.char? : CodePoint → Option Char
  | .char c => some c
  | .half _ => none

/-- How many octets a code point has in a path. The halves from `0xdc80` to `0xdcff` stand for
single octets of names that are not UTF-8. -/
def CodePoint.pathSize? : CodePoint → Option Nat
  | .char c => some c.utf8Size
  | .half index => if 0x480 ≤ index.val ∧ index.val < 0x500 then some 1 else none

namespace Text

def encodeFrom {α : Type} (encode? : CodePoint → Option α) (position : Nat) :
    Text → Except Utf8.Unencodable (List α)
  | [] => .ok []
  | c :: rest =>
    match encode? c with
    | some code => (encodeFrom encode? (position + 1) rest).map (code :: ·)
    | none => .error ⟨c, position, (rest.takeWhile (·.isHalf)).length + 1⟩

def chars? (text : Text) : Except Utf8.Unencodable Chars := encodeFrom CodePoint.char? 0 text

def utf8? (text : Text) : Except Utf8.Unencodable Bytes := text.chars?.map (·.utf8)

def pathSizes? (path : Text) : Except Utf8.Unencodable (List Nat) :=
  encodeFrom CodePoint.pathSize? 0 path

def pathSize : Text → Nat
  | [] => 0
  | c :: rest => c.pathSize?.getD 0 + pathSize rest

end Text

end Relink
