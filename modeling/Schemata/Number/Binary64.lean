/-!
# Binary floating point numbers

A `Binary64` is the 64 bit pattern of a floating point number. A finite pattern denotes
`(-1)^sign · mantissa · 2^exponent`, read off by `mantissa` and `exponent`; every other operation
is exact arithmetic on natural numbers followed by one rounding, `nearest`.
-/

namespace Schemata

structure Binary64 where
  bits : UInt64
deriving DecidableEq, Repr, Inhabited, Hashable

namespace Binary64

def isNegative (x : Binary64) : Bool :=
  x.bits.toNat / Nat.pow 2 63 % 2 = 1

def exponentField (x : Binary64) : Nat :=
  x.bits.toNat / Nat.pow 2 52 % 2048

def fractionField (x : Binary64) : Nat :=
  x.bits.toNat % Nat.pow 2 52

def isFinite (x : Binary64) : Bool :=
  x.exponentField ≠ 2047

def isNaN (x : Binary64) : Bool :=
  x.exponentField = 2047 && x.fractionField ≠ 0

/-- The integer multiple of `2 ^ exponent` that a finite pattern denotes, without its sign. -/
def mantissa (x : Binary64) : Nat :=
  if x.exponentField = 0 then x.fractionField else x.fractionField + Nat.pow 2 52

def exponent (x : Binary64) : Int :=
  if x.exponentField = 0 then -1074 else (x.exponentField : Int) - 1075

def isZero (x : Binary64) : Bool :=
  x.isFinite && x.mantissa = 0

/-- The absolute value of a finite pattern as a fraction. -/
def magnitude (x : Binary64) : Nat × Nat :=
  if x.exponent ≥ 0 then (x.mantissa * Nat.pow 2 x.exponent.toNat, 1)
  else (x.mantissa, Nat.pow 2 (-x.exponent).toNat)

def ofFields (negative : Bool) (rest : Nat) : Binary64 :=
  ⟨UInt64.ofNat ((if negative then Nat.pow 2 63 else 0) + rest)⟩

def infinity (negative : Bool) : Binary64 :=
  ofFields negative (2047 * Nat.pow 2 52)

def nan : Binary64 :=
  ofFields false (2047 * Nat.pow 2 52 + Nat.pow 2 51)

def zero (negative : Bool) : Binary64 :=
  ofFields negative 0

def roundQuotient (num den : Nat) : Nat :=
  let q := num / den
  let twice := 2 * (num % den)
  if twice < den then q
  else if den < twice then q + 1
  else if q % 2 = 0 then q else q + 1

/-- The largest `e` with `2 ^ e ≤ num / den`, for positive `num` and `den`. -/
def floorLog2 (num den : Nat) : Int :=
  let e : Int := (Nat.log2 num : Int) - (Nat.log2 den : Int)
  let reached :=
    if e ≥ 0 then den * Nat.pow 2 e.toNat ≤ num else den ≤ num * Nat.pow 2 (-e).toNat
  if reached then e else e - 1

/-- The pattern nearest to a fraction, halves to the even mantissa; what lies beyond the largest
finite pattern becomes infinite. -/
def nearest (negative : Bool) (num den : Nat) : Binary64 :=
  if num = 0 then zero negative
  else
    let unit : Int := max (floorLog2 num den - 52) (-1074)
    let m :=
      if unit ≥ 0 then roundQuotient num (den * Nat.pow 2 unit.toNat)
      else roundQuotient (num * Nat.pow 2 (-unit).toNat) den
    let rest := (unit + 1074).toNat * Nat.pow 2 52 + m
    if rest < 2047 * Nat.pow 2 52 then ofFields negative rest else infinity negative

/-- The pattern nearest to `digits · 10 ^ exponent`. -/
def ofDecimal (negative : Bool) (digits : Nat) (exponent : Int) : Binary64 :=
  if digits = 0 then zero negative
  else if exponent > 310 then infinity negative
  else if exponent ≥ 0 then nearest negative (digits * Nat.pow 10 exponent.toNat) 1
  else if exponent + (Nat.log2 digits / 3 + 1 : Int) < -330 then zero negative
  else nearest negative digits (Nat.pow 10 (-exponent).toNat)

def mul (x y : Binary64) : Binary64 :=
  let (a, b) := x.magnitude
  let (c, d) := y.magnitude
  nearest (x.isNegative != y.isNegative) (a * c) (b * d)

def div (x y : Binary64) : Binary64 :=
  let (a, b) := x.magnitude
  let (c, d) := y.magnitude
  nearest (x.isNegative != y.isNegative) (a * d) (b * c)

def neg (x : Binary64) : Binary64 :=
  ofFields (!x.isNegative) (x.bits.toNat % Nat.pow 2 63)

def ofNat (n : Nat) : Binary64 := nearest false n 1

end Binary64

end Schemata
