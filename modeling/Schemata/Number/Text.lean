import Schemata.Number.Shortest

/-!
# Text of numbers

A float is written with its shortest digits: in positional notation while the exponent of its
first digit lies within the bounds of a `FloatFormat`, in exponent notation outside them. An
integral value keeps a trailing `.0`.
-/

namespace Schemata

structure FloatFormat where
  lowestPositional : Option Int
  highestPositional : Option Int
  plusSign : Bool

/-- Trees in their textual form: positional from `10 ^ (-5)` to below `10 ^ 16`. -/
def FloatFormat.tree : FloatFormat := ⟨some (-5), some 15, true⟩

def FloatFormat.block : FloatFormat := { FloatFormat.tree with plusSign := false }

/-- Messages about a number of the wrong kind never use an exponent. -/
def FloatFormat.positional : FloatFormat := ⟨none, none, false⟩

namespace Decimal

/-- Significant digits, most significant first, without trailing zeros. -/
def digitChars (d : Decimal) : List Char :=
  let ds := Nat.toDigits 10 d.digits
  match (ds.reverse.dropWhile (· = '0')).reverse with
  | [] => ['0']
  | trimmed => trimmed

def leadExponent (d : Decimal) : Int :=
  d.exponent + ((Nat.toDigits 10 d.digits).length : Int) - 1

def positionalText (ds : List Char) (lead : Int) : String :=
  if lead < 0 then
    "0." ++ String.ofList (List.replicate (-lead - 1).toNat '0' ++ ds)
  else
    let whole := lead.toNat + 1
    if ds.length ≤ whole then
      String.ofList (ds ++ List.replicate (whole - ds.length) '0') ++ ".0"
    else String.ofList (ds.take whole) ++ "." ++ String.ofList (ds.drop whole)

def exponentText (plusSign : Bool) (ds : List Char) (lead : Int) : String :=
  let head := String.ofList (ds.take 1)
  let tail := ds.drop 1
  let body := if tail.isEmpty then head else head ++ "." ++ String.ofList tail
  let sign := if lead < 0 then "-" else if plusSign then "+" else ""
  body ++ "e" ++ sign ++ toString lead.natAbs

def text (f : FloatFormat) (d : Decimal) : String :=
  let ds := d.digitChars
  let lead := d.leadExponent
  let inBounds :=
    (f.lowestPositional.all fun b => decide (b ≤ lead)) &&
    (f.highestPositional.all fun b => decide (lead ≤ b))
  if inBounds then positionalText ds lead else exponentText f.plusSign ds lead

end Decimal

namespace Binary64

/-- Text of a finite number; the special patterns have the texts of their block form. -/
def text (f : FloatFormat) (x : Binary64) : String :=
  if x.isNaN then ".nan"
  else
    let sign := if x.isNegative then "-" else ""
    if !x.isFinite then sign ++ ".inf"
    else if x.mantissa = 0 then sign ++ "0.0"
    else sign ++ x.shortest.text f

end Binary64

end Schemata
