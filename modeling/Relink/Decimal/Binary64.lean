/-!
Decimal numbers as binary floating point numbers of 64 bits, in exact arithmetic: the nearest number
to a decimal, and the fewest digits that read back as a given number.
-/

namespace Relink

structure Binary64 where
  significand : Nat
  exponent : Int
  deriving DecidableEq

namespace Binary64

def minExponent : Int := -1074

def maxExponent : Int := 971

def roundDiv (a b : Nat) : Nat :=
  let q := a / b
  let r := a % b
  if 2 * r < b then q else if b < 2 * r then q + 1 else q + q % 2

def scaled (a b : Nat) (shift : Int) : Nat :=
  if 0 ≤ shift then roundDiv (a * Nat.pow 2 shift.toNat) b
  else roundDiv a (b * Nat.pow 2 (-shift).toNat)

def nearest? (a b : Nat) : Option Binary64 :=
  let estimate : Int := (a.log2 : Int) - b.log2 - 53
  let fit (e : Int) := Nat.pow 2 53 ≤ scaled a b (-e)
  let exponent := max minExponent (if fit estimate then estimate + 1 else estimate)
  let exponent := if fit exponent then exponent + 1 else exponent
  let significand := scaled a b (-exponent)
  if a = 0 then some ⟨0, minExponent⟩
  else if maxExponent < exponent then none
  else some ⟨significand, exponent⟩

def ofDecimal? (digits : Nat) (power : Int) : Option Binary64 :=
  let size : Int := (Nat.toDigits 10 digits).length + power
  if digits = 0 || size < -330 then some ⟨0, minExponent⟩
  else if 310 < size then none
  else if 0 ≤ power then nearest? (digits * Nat.pow 10 power.toNat) 1
  else nearest? digits (Nat.pow 10 (-power).toNat)

/-- The number and the bounds of what rounds to it, over a common denominator. -/
structure Interval where
  low : Nat
  value : Nat
  high : Nat
  denominator : Nat
  closed : Bool

def interval (x : Binary64) : Interval :=
  let m := x.significand
  let below := if m = Nat.pow 2 52 && minExponent < x.exponent then 1 else 2
  let e := x.exponent - 2
  let up := if 0 ≤ e then Nat.pow 2 e.toNat else 1
  let down := if 0 ≤ e then 1 else Nat.pow 2 (-e).toNat
  { low := (4 * m - below) * up
    value := 4 * m * up
    high := (4 * m + 2) * up
    denominator := down
    closed := m % 2 = 0 }

/-- The multiple of `10 ^ power` nearest to the number among the two next to it that lie in the
interval, as a count. -/
def Interval.onGrid? (i : Interval) (power : Int) : Option Nat :=
  let up := if 0 ≤ power then 1 else Nat.pow 10 (-power).toNat
  let unit := i.denominator * (if 0 ≤ power then Nat.pow 10 power.toNat else 1)
  let inside (count : Nat) :=
    let x := count * unit
    if i.closed then i.low * up ≤ x && x ≤ i.high * up else i.low * up < x && x < i.high * up
  let floor := i.value * up / unit
  let rest := i.value * up - floor * unit
  let floorFirst := 2 * rest < unit || (2 * rest = unit && floor % 2 = 0)
  let order := if floorFirst then [floor, floor + 1] else [floor + 1, floor]
  order.find? inside

def Interval.magnitude (i : Interval) : Int :=
  let reaches (power : Int) : Bool :=
    if 0 ≤ power then i.denominator * Nat.pow 10 power.toNat ≤ i.value
    else i.denominator ≤ i.value * Nat.pow 10 (-power).toNat
  (((List.range 640).map fun n : Nat => (310 : Int) - n).find? reaches).getD (-324)

def shortest (x : Binary64) : Nat × Int :=
  let i := x.interval
  if x.significand = 0 then (0, 0)
  else
    let grids := (List.range 17).map fun n : Nat => i.magnitude - n
    (grids.findSome? fun power => (i.onGrid? power).map (·, power)).getD (0, 0)

end Binary64

end Relink
