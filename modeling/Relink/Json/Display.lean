import Relink.Decimal.Binary64
import Relink.Json.Value
import Relink.Text.Quoted

namespace Relink.Json

private def zeros (count : Nat) : Text := List.replicate count '0'

/-- Positional from 10⁻⁴ up to below 10¹⁶, otherwise with an exponent of at least two digits. -/
def displayReal (digits : Nat) (power : Int) : Text :=
  match Binary64.ofDecimal? digits power with
  | none => "inf"
  | some x =>
    let (count, power) := x.shortest
    let all := Text.ofNat count
    let shown := (all.reverse.dropWhile (· == .char '0')).reverse
    let point : Int := all.length + power
    if shown.isEmpty then "0.0"
    else if -4 < point && point ≤ 0 then
      "0." ++ zeros (-point).toNat ++ shown
    else if 0 < point && point ≤ 16 then
      let whole := shown.take point.toNat
      let decimals := shown.drop point.toNat
      whole ++ zeros (point.toNat - whole.length) ++ "." ++
        (if decimals.isEmpty then [.char '0'] else decimals)
    else
      let e := point - 1
      let size := Text.ofNat e.natAbs
      shown.take 1 ++ (if shown.length = 1 then [] else .char '.' :: shown.drop 1) ++ "e" ++
        [if e < 0 then CodePoint.char '-' else .char '+'] ++ zeros (2 - size.length) ++ size

def Number.display : Number → Text
  | .whole value => Text.ofInt value
  | .real negative digits power => (if negative then "-" else "") ++ displayReal digits power
  | .infinity negative => if negative then "-inf" else "inf"
  | .nan => "nan"

mutual

def display : Json → Text
  | .null => "None"
  | .bool true => "True"
  | .bool false => "False"
  | .number n => n.display
  | .string text => text.quoted
  | .array items => "[" ++ Text.joinWith ", " (displayAll items) ++ "]"
  | .object fields => "\x7b" ++ Text.joinWith ", " (displayFields fields) ++ "\x7d"

def displayAll : List Json → List Text
  | [] => []
  | item :: rest => item.display :: displayAll rest

def displayFields : List (Text × Json) → List Text
  | [] => []
  | (name, item) :: rest => (name.quoted ++ ": " ++ item.display) :: displayFields rest

end

def Number.isZero : Number → Bool
  | .whole value => value == 0
  | .real _ digits power => (Binary64.ofDecimal? digits power).any (·.significand == 0)
  | .infinity _ => false
  | .nan => false

def isGiven : Json → Bool
  | .null => false
  | .bool value => value
  | .number n => !n.isZero
  | .string text => !text.isEmpty
  | .array items => !items.isEmpty
  | .object fields => !fields.isEmpty

end Relink.Json
