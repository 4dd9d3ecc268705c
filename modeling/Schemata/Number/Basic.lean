import Schemata.Number.Text

/-!
# Numbers of a tree

A number is an integer or a float; the two are never identified here, and `compare?` orders them
by their exact values.
-/

namespace Schemata

inductive Number where
  | int (n : Int)
  | float (x : Binary64)
deriving DecidableEq, Repr, Inhabited, Hashable

namespace Number

/-- The largest integer that a tree holds exactly. -/
def maxInt : Int := Int.pow 2 64 - 1

def text (f : FloatFormat) : Number → String
  | int n => toString n
  | float x => x.text f

/-- The exact value as a fraction with positive denominator; `none` for what is not finite. -/
def fraction? : Number → Option (Int × Nat)
  | int n => some (n, 1)
  | float x =>
    if x.isFinite then
      let (a, b) := x.magnitude
      some (if x.isNegative then -(a : Int) else (a : Int), b)
    else none

def asFloat : Number → Binary64
  | int n => .nearest (n < 0) n.natAbs 1
  | float x => x

def compare? (a b : Number) : Option Ordering := do
  let (n, d) ← a.fraction?
  let (m, e) ← b.fraction?
  return compare (n * (e : Int)) (m * (d : Int))

def isIntegral : Number → Bool
  | int _ => true
  | float x => x.isFinite && (let (a, b) := x.magnitude; a % b = 0)

end Number

end Schemata
