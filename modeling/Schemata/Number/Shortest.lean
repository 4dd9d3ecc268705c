import Schemata.Number.Binary64

/-!
# The shortest decimal of a floating point number

`shortest` finds the fewest digits that read back as the same number, and of those the digits
nearest to it. It tries one digit, two digits, and so on up to seventeen: a grid of decimals has a
point among the reals that round to the number exactly if one of the number's two neighbours on
that grid is such a point.
-/

namespace Schemata

/-- The number `digits · 10 ^ exponent`. -/
structure Decimal where
  digits : Nat
  exponent : Int
deriving DecidableEq, Repr, Inhabited

namespace Binary64

/-- The reals that round to a positive pattern, as multiples of a quarter of its unit in the last
place: from `low` to `high`, ends included for an even mantissa. -/
structure Rounding where
  low : Nat
  value : Nat
  high : Nat
  closed : Bool

def rounding (x : Binary64) : Rounding where
  low :=
    if x.fractionField = 0 ∧ x.exponentField > 1 then 4 * x.mantissa - 1 else 4 * x.mantissa - 2
  value := 4 * x.mantissa
  high := 4 * x.mantissa + 2
  closed := x.mantissa % 2 = 0

/-- Whether `point / scaleDen` lies between the ends, each multiplied by `scaleNum`. -/
def Rounding.covers (r : Rounding) (scaleNum scaleDen point : Nat) : Bool :=
  let p := point * scaleDen
  if r.closed then r.low * scaleNum ≤ p && p ≤ r.high * scaleNum
  else r.low * scaleNum < p && p < r.high * scaleNum

def digitCount (n : Nat) : Nat := (Nat.toDigits 10 n).length

def floorLog10 (num den : Nat) : Int :=
  if den ≤ num then (digitCount (num / den) : Int) - 1
  else
    let d := digitCount (den / num)
    if den ≤ num * Nat.pow 10 (d - 1) then -((d : Int) - 1) else -(d : Int)

/-- The neighbour on the grid of `n` digit decimals that rounds to the number, the nearer one if
both do. -/
def onGrid? (r : Rounding) (unitNum unitDen : Nat) (lead : Int) (n : Nat) : Option Decimal :=
  let shift : Int := (n : Int) - 1 - lead
  let num := if shift ≥ 0 then unitNum * Nat.pow 10 shift.toNat else unitNum
  let den := if shift ≥ 0 then unitDen else unitDen * Nat.pow 10 (-shift).toNat
  let below := r.value * num / den
  let above := below + 1
  let belowIn := r.covers num den below
  let aboveIn := r.covers num den above
  let pick :=
    if belowIn && aboveIn then
      let twice := 2 * (r.value * num % den)
      if twice < den then some below
      else if den < twice then some above
      else if below % 2 = 0 then some below else some above
    else if belowIn then some below
    else if aboveIn then some above
    else none
  pick.map fun digits => ⟨digits, -shift⟩

/-- The shortest decimal that rounds to a finite number other than zero, sign aside. -/
def shortest (x : Binary64) : Decimal :=
  let r := x.rounding
  let unit : Int := x.exponent - 2
  let unitNum := if unit ≥ 0 then Nat.pow 2 unit.toNat else 1
  let unitDen := if unit ≥ 0 then 1 else Nat.pow 2 (-unit).toNat
  let lead := floorLog10 (r.value * unitNum) unitDen
  ((List.range 17).findSome? fun i => onGrid? r unitNum unitDen lead (i + 1)).getD
    ⟨r.value * unitNum, 0⟩

end Binary64

end Schemata
