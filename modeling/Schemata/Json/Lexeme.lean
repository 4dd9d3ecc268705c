import Schemata.Json.Cursor
import Schemata.Number.Basic

/-!
# Words, numbers and strings of JSON

A number keeps at most 64 bits of its digits: a longer integer, a fraction and an exponent are
turned into a float by scaling that significand with one correctly rounded power of ten. A skimmed
lexeme is checked for its shape only: its range and the pairing of its surrogates do not matter.
-/

namespace Schemata.Json

inductive Reading where
  | keep
  | skim
deriving DecidableEq

def isDigit (c : Char) : Bool := '0' ≤ c && c ≤ '9'

def digitValue (c : Char) : Nat := c.toNat - '0'.toNat

/-- Reads the remaining characters of a word whose first one is taken. -/
def readWord (c : Cursor) : List Char → Except Error Cursor
  | [] => .ok c
  | w :: ws =>
    match c.rest with
    | [] => c.fail .endInValue
    | x :: _ => if x = w then readWord c.next ws else c.failPeek .expectedWord

/-- Appends digits to a significand while it fits 64 bits; the second component counts the digits
from the first that does not. -/
def absorb : Nat → List Char → Nat × Nat
  | n, [] => (n, 0)
  | n, d :: ds =>
    let more := n * 10 + digitValue d
    if more < Nat.pow 2 64 then absorb more ds else (n, ds.length + 1)

def powerOfTen (e : Nat) : Binary64 := .ofDecimal false 1 e

/-- `significand · 10 ^ exponent` by one product or quotient, after steps of `10 ^ 308` for very
small exponents; `none` beyond the largest float. -/
def scale (value : Binary64) (exponent : Int) : Option Binary64 :=
  if exponent.natAbs ≤ 308 then
    if exponent ≥ 0 then
      let x := value.mul (powerOfTen exponent.toNat)
      if x.isFinite then some x else none
    else some (value.div (powerOfTen exponent.natAbs))
  else if value.isZero then some value
  else if exponent ≥ 0 then none
  else scale (value.div (powerOfTen 308)) (exponent + 308)
termination_by exponent.natAbs
decreasing_by omega

def ofParts (reading : Reading) (c : Cursor) (negative : Bool) (significand : Nat)
    (exponent : Int) : Except Error (Number × Cursor) :=
  match scale (.ofNat significand) exponent with
  | some x => .ok (.float (if negative then x.neg else x), c)
  | none => if reading = .skim then .ok (.int 0, c) else c.fail .numberOutOfRange

/-- The digits of an exponent as read: their value, or `none` from the digit on where it leaves 31
bits. -/
def exponentValue : Nat → List Char → Nat × Option Nat
  | n, [] => (n, none)
  | n, d :: ds =>
    let more := n * 10 + digitValue d
    if more < Nat.pow 2 31 then exponentValue more ds else (n, some ds.length)

/-- Reads an exponent from its letter on. -/
def readExponent (reading : Reading) (c : Cursor) (negative : Bool) (significand : Nat)
    (start : Int) : Except Error (Number × Cursor) :=
  let c := c.next
  let (down, c) :=
    match c.peek? with
    | some '+' => (false, c.next)
    | some '-' => (true, c.next)
    | _ => (false, c)
  match c.peek? with
  | none => c.fail .endInValue
  | some x =>
    if !isDigit x then c.failPeek .invalidNumber
    else
      let digits := c.rest.takeWhile isDigit
      let after := c.skip digits.length
      match exponentValue 0 digits with
      | (e, none) =>
        ofParts reading after negative significand (if down then start - e else start + e)
      | (_, some left) =>
        if significand ≠ 0 && !down && reading = .keep then
          (c.skip (digits.length - left)).fail .numberOutOfRange
        else .ok (.float (.zero negative), after)

def startsExponent (c : Cursor) : Bool :=
  match c.peek? with
  | some x => x = 'e' || x = 'E'
  | none => false

def readFraction (reading : Reading) (c : Cursor) (negative : Bool) (significand : Nat)
    (start : Int) : Except Error (Number × Cursor) :=
  let c := c.next
  let digits := c.rest.takeWhile isDigit
  let after := c.skip digits.length
  if digits.isEmpty then
    if after.rest.isEmpty then after.failPeek .endInValue else after.failPeek .invalidNumber
  else
    let (significand, dropped) := absorb significand digits
    let exponent := start - (digits.length - dropped : Nat)
    if startsExponent after then readExponent reading after negative significand exponent
    else ofParts reading after negative significand exponent

/-- Reads a number whose sign, if any, is taken. -/
def readNumber (reading : Reading) (c : Cursor) (negative : Bool) :
    Except Error (Number × Cursor) :=
  match c.peek? with
  | none => c.fail .endInValue
  | some x =>
    if !isDigit x then c.failPeek .invalidNumber
    else
      let digits := if x = '0' then ['0'] else c.rest.takeWhile isDigit
      let after := c.skip digits.length
      if x = '0' && (match after.peek? with | some y => isDigit y | none => false) then
        after.failPeek .invalidNumber
      else
        let (significand, dropped) := absorb 0 digits
        if after.peek? = some '.' then readFraction reading after negative significand dropped
        else if startsExponent after then readExponent reading after negative significand dropped
        else if dropped > 0 then ofParts reading after negative significand dropped
        else if !negative then .ok (.int significand, after)
        else if significand = 0 || significand > Nat.pow 2 63 then
          .ok (.float (Binary64.ofNat significand).neg, after)
        else .ok (.int (-(significand : Int)), after)

def hexValue? (c : Char) : Option Nat :=
  if isDigit c then some (digitValue c)
  else if 'a' ≤ c ∧ c ≤ 'f' then some (c.toNat - 'a'.toNat + 10)
  else if 'A' ≤ c ∧ c ≤ 'F' then some (c.toNat - 'A'.toNat + 10)
  else none

def readUnit (c : Cursor) : Except Error (Nat × Cursor) :=
  match c.rest with
  | w :: x :: y :: z :: _ =>
    match hexValue? w, hexValue? x, hexValue? y, hexValue? z with
    | some w, some x, some y, some z => .ok (((w * 16 + x) * 16 + y) * 16 + z, c.skip 4)
    | _, _, _, _ => .error ⟨.invalidEscape, Cursor.placeAfterBytes c.rest c.place 4⟩
  | short =>
    let bytes := short.foldl (fun n c => n + c.utf8Size) 0
    if bytes < 4 then .error ⟨.endInString, Cursor.placeAfterBytes short c.place 4⟩
    else .error ⟨.invalidEscape, Cursor.placeAfterBytes short c.place 4⟩

/-- Reads the escape of a character by its code, from behind its letter: one unit, or the two halves
of a surrogate pair. -/
def readCode (reading : Reading) (c : Cursor) : Except Error (Char × Cursor) := do
  let (high, c) ← readUnit c
  if reading = .skim then return ('?', c)
  if 0xDC00 ≤ high ∧ high ≤ 0xDFFF then c.fail .loneSurrogate
  else if high < 0xD800 ∨ 0xDBFF < high then return (Char.ofNat high, c)
  else
    match c.rest with
    | [] => c.fail .endInString
    | x :: _ =>
      if x ≠ '\\' then c.failPeek .endOfEscape
      else
        let c := c.next
        match c.rest with
        | [] => c.fail .endInString
        | y :: _ =>
          if y ≠ 'u' then c.failPeek .endOfEscape
          else
            let (low, c) ← readUnit c.next
            if low < 0xDC00 ∨ 0xDFFF < low then c.fail .loneSurrogate
            else return (Char.ofNat ((high - 0xD800) * 1024 + (low - 0xDC00) + 0x10000), c)

def readEscape (reading : Reading) (c : Cursor) : Except Error (Char × Cursor) :=
  match c.rest with
  | [] => c.fail .endInString
  | x :: _ =>
    let simple (y : Char) : Except Error (Char × Cursor) := .ok (y, c.next)
    if x = '"' ∨ x = '\\' ∨ x = '/' then simple x
    else if x = 'b' then simple (Char.ofNat 8)
    else if x = 'f' then simple (Char.ofNat 12)
    else if x = 'n' then simple '\n'
    else if x = 'r' then simple '\r'
    else if x = 't' then simple '\t'
    else if x = 'u' then readCode reading c.next
    else c.failPeek .invalidEscape

/-- Reads the characters of a string up to its closing quote; `taken` holds those before the cursor,
last one first. -/
def readChars (reading : Reading) : Nat → Cursor → List Char → Except Error (String × Cursor)
  | 0, c, _ => c.fail .endInString
  | fuel + 1, c, taken =>
    match c.rest with
    | [] => c.fail .endInString
    | x :: _ =>
      if x = '"' then .ok (String.ofList taken.reverse, c.next)
      else if x = '\\' then do
        let (y, c) ← readEscape reading c.next
        readChars reading fuel c (y :: taken)
      else if x.toNat < 32 then
        (if reading = .skim then c else c.next).fail .controlCharacter
      else readChars reading fuel c.next (x :: taken)

def readString (reading : Reading) (c : Cursor) : Except Error (String × Cursor) :=
  readChars reading (c.rest.length + 1) c []

end Schemata.Json
