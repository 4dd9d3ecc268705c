import Schemata.Number.Basic
import Schemata.Text.Visible
import Schemata.Yaml.Token

/-!
# What a scalar stands for

A plain scalar is a null, a boolean, an integer or a float if it is spelled like one, and a string
otherwise; quoted and block scalars are strings. Of the standard tags those for booleans, integers,
floats and null demand their spelling, and the others make a string.
-/

namespace Schemata.Yaml

inductive Scalar where
  | null
  | bool (b : Bool)
  | int (n : Int)
  /-- An integer beyond 64 bits and within 128. -/
  | wide (n : Int)
  | float (x : Binary64)
  | string (s : String)
deriving DecidableEq, Repr

namespace Scalar

def null? (s : String) : Bool := s = "null" || s = "Null" || s = "NULL" || s = "~"

def bool? (s : String) : Option Bool :=
  if s = "true" || s = "True" || s = "TRUE" then some true
  else if s = "false" || s = "False" || s = "FALSE" then some false
  else none

def digitIn? (radix : Nat) (c : Char) : Option Nat :=
  let n :=
    if c.isDigit then some (c.toNat - '0'.toNat)
    else if 'a' ≤ c ∧ c ≤ 'z' then some (c.toNat - 'a'.toNat + 10)
    else if 'A' ≤ c ∧ c ≤ 'Z' then some (c.toNat - 'A'.toNat + 10)
    else none
  n.filter (· < radix)

/-- The number spelled by one digit or more. -/
def natIn? (radix : Nat) (cs : List Char) : Option Nat :=
  if cs.isEmpty then none
  else cs.foldlM (fun n c => (digitIn? radix c).map (n * radix + ·)) 0

def dropSign (cs : List Char) : List Char :=
  match cs with
  | '-' :: rest | '+' :: rest => rest
  | _ => cs

/-- Digits behind a leading zero are no number. -/
def isPaddedDigits (cs : List Char) : Bool :=
  match dropSign cs with
  | '0' :: d :: ds => (d :: ds).all Char.isDigit
  | _ => false

/-- The magnitude spelled in hexadecimal, octal, binary or decimal, without a sign of its own. -/
def magnitude? (bound : Nat) (cs : List Char) : Option Nat :=
  let within (n : Option Nat) : Option Nat := n.filter (· ≤ bound)
  match cs with
  | '0' :: 'x' :: ds => within (natIn? 16 ds)
  | '0' :: 'o' :: ds => within (natIn? 8 ds)
  | '0' :: 'b' :: ds => within (natIn? 2 ds)
  | _ => if isPaddedDigits cs then none else within (natIn? 10 cs)

/-- An integer of so many bits, without sign above zero and in two's complement below. -/
def intOfBits? (bits : Nat) (s : String) : Option Int :=
  match s.toList with
  | '-' :: cs => (magnitude? (Nat.pow 2 (bits - 1)) cs).map fun n => -(n : Int)
  | '+' :: cs => (magnitude? (Nat.pow 2 bits - 1) cs).map Int.ofNat
  | cs => (magnitude? (Nat.pow 2 bits - 1) cs).map Int.ofNat

def int? (s : String) : Option Scalar :=
  match intOfBits? 64 s with
  | some n => some (.int n)
  | none => (intOfBits? 128 s).map wide

/-- A decimal with optional point and exponent; digits stand on one side of the point at least. -/
def decimal? (negative : Bool) (cs : List Char) : Option Binary64 :=
  let whole := cs.takeWhile Char.isDigit
  let rest := cs.drop whole.length
  let (fraction, rest) :=
    match rest with
    | '.' :: rest => (rest.takeWhile Char.isDigit, rest.dropWhile Char.isDigit)
    | _ => ([], rest)
  let exponent? : Option Int :=
    match rest with
    | [] => some 0
    | 'e' :: ds | 'E' :: ds =>
      match ds with
      | '-' :: ds => (natIn? 10 ds).map fun n => -(n : Int)
      | '+' :: ds => (natIn? 10 ds).map Int.ofNat
      | _ => (natIn? 10 ds).map Int.ofNat
    | _ => none
  match natIn? 10 (whole ++ fraction), exponent? with
  | some digits, some exponent => some (.ofDecimal negative digits (exponent - fraction.length))
  | _, _ => none

def float? (s : String) : Option Binary64 :=
  if s = ".nan" || s = ".NaN" || s = ".NAN" then some .nan
  else
    let infinite := [".inf", ".Inf", ".INF"].map String.toList
    let found :=
      match s.toList with
      | '-' :: cs => if infinite.contains cs then some (.infinity true) else finite true cs
      | '+' :: cs => if infinite.contains cs then some (.infinity false) else finite false cs
      | cs => if infinite.contains cs then some (.infinity false) else finite false cs
    found
where
  finite (negative : Bool) (cs : List Char) : Option Binary64 :=
    (decimal? negative cs).filter (·.isFinite)

def ofPlain (s : String) : Scalar :=
  if s = "" || null? s then .null
  else
    match bool? s with
    | some b => .bool b
    | none =>
      match int? s with
      | some n => n
      | none =>
        if isPaddedDigits s.toList then .string s
        else
          match float? s with
          | some x => .float x
          | none => .string s

structure Misspelling where
  content : String
  wanted : String
deriving DecidableEq, Repr

def Misspelling.message (m : Misspelling) : String :=
  "invalid value: string " ++ visible m.content ++ ", expected " ++ m.wanted

def standardTag (name : String) : String := "tag:yaml.org,2002:" ++ name

def demand (content wanted : String) (found : Option Scalar) : Except Misspelling Scalar :=
  match found with
  | some v => .ok v
  | none => .error ⟨content, wanted⟩

/-- The value of a scalar with its tag. -/
def resolve (tag : Option String) (content : String) (style : ScalarStyle) :
    Except Misspelling Scalar :=
  match tag with
  | none => .ok (if style = .plain then ofPlain content else .string content)
  | some tag =>
    if tag = standardTag "bool" then demand content "a boolean" ((bool? content).map bool)
    else if tag = standardTag "int" then demand content "an integer" (int? content)
    else if tag = standardTag "float" then demand content "a float" ((float? content).map float)
    else if tag = standardTag "null" then
      demand content "null" (if null? content then some .null else none)
    else if tag.startsWith "!" && style = .plain then .ok (ofPlain content)
    else .ok (.string content)

def describe : Scalar → String
  | null => "unit value"
  | bool b => "boolean \x60" ++ (if b then "true" else "false") ++ "\x60"
  | int n => "integer \x60" ++ toString n ++ "\x60"
  | wide n => "integer \x60" ++ toString n ++ "\x60 as " ++ if n < 0 then "i128" else "u128"
  | float x =>
    let text :=
      if x.isNaN then "NaN"
      else if x.isFinite then x.text .positional
      else if x.isNegative then "-inf" else "inf"
    "floating point \x60" ++ text ++ "\x60"
  | string s => "string " ++ visible s

end Scalar

end Schemata.Yaml
