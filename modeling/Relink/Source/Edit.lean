import Relink.Text.Utf8

namespace Relink

structure Edit where
  start : Int
  stop : Int
  text : Text
  deriving DecidableEq

namespace Edit

inductive Fault
  | overlap (start : Int)
  | unencodable (unencodable : Utf8.Unencodable)
  | malformed (malformed : Utf8.Malformed)
  deriving DecidableEq

/-- A place among `size` octets; a negative offset counts from the end. -/
def clamp (size : Nat) (offset : Int) : Nat :=
  if offset < 0 then (size + offset).toNat else min offset.toNat size

def slice (source : Bytes) (start stop : Int) : Bytes :=
  let first := clamp source.length start
  (source.drop first).take (clamp source.length stop - first)

def splice (source : Bytes) (position : Int) : List Edit → Except Fault Bytes
  | [] => .ok (slice source position source.length)
  | edit :: rest =>
    if edit.start < position then .error (.overlap edit.start)
    else
      match edit.text.utf8? with
      | .error unencodable => .error (.unencodable unencodable)
      | .ok octets =>
        (splice source edit.stop rest).map fun tail =>
          slice source position edit.start ++ octets ++ tail

def ordered (edits : List Edit) : List Edit := edits.mergeSort fun a b => a.start ≤ b.start

def applyAll (source : Bytes) (edits : List Edit) : Except Fault Chars :=
  match splice source 0 (ordered edits) with
  | .error fault => .error fault
  | .ok octets => (Utf8.decode octets).mapError .malformed

def overlapMessage (start : Int) : Text := "Overlapping edit at byte " ++ Text.ofInt start

end Edit

end Relink
