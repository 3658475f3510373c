import Relink.Fields

namespace Relink

namespace Json

/-- A number is whole when it is written without fraction and exponent. A real number is
`digits · 10 ^ exponent`, with its sign kept apart. -/
inductive Number
  | whole (value : Int)
  | real (negative : Bool) (digits : Nat) (exponent : Int)
  | infinity (negative : Bool)
  | nan
  deriving DecidableEq

end Json

inductive Json
  | null
  | bool (value : Bool)
  | number (value : Json.Number)
  | string (value : Text)
  | array (items : List Json)
  | object (fields : List (Text × Json))

namespace Json

def asText? : Json → Option Text
  | .string text => some text
  | _ => none

def field? (value : Json) (name : Text) : Option Json :=
  match value with
  | .object fields => Fields.get? fields name
  | _ => none

theorem bind_asText?_eq_some {value? : Option Json} {text : Text} :
    value?.bind asText? = some text ↔ value? = some (.string text) := by
  cases value? with
  | none => simp
  | some value => cases value <;> simp [asText?]

end Json

end Relink
