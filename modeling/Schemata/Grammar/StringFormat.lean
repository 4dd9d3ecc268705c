import Schemata.Grammar.Identifier
import Schemata.Grammar.Pattern

/-!
# Formats of strings

A format is a kind of text with a name: dates and times, network names and addresses, identifiers,
patterns and pointers. A name that is not known here says nothing about a text.
-/

namespace Schemata.StringFormat

open Identifier

def tildesEscaped : List Char → Bool
  | [] => true
  | c :: rest => (c ≠ '~' || rest.head? = some '0' || rest.head? = some '1') && tildesEscaped rest

def isPointer (cs : List Char) : Bool := cs.isEmpty || (cs.head? = some '/' && tildesEscaped cs)

/-- A number of steps up, and a pointer from there or the sign for the name found there. -/
def isRelativePointer (cs : List Char) : Bool :=
  let up := cs.takeWhile Char.isDigit
  let rest := cs.drop up.length
  !up.isEmpty && (up.length = 1 || up.head? ≠ some '0') && (rest = ['#'] || isPointer rest)

def number (cs : List Char) : Nat := cs.foldl (fun n c => n * 10 + (c.toNat - '0'.toNat)) 0

def isLeap (year : Nat) : Bool := year % 4 = 0 && (year % 100 ≠ 0 || year % 400 = 0)

def daysIn (year month : Nat) : Nat :=
  if month = 2 then if isLeap year then 29 else 28
  else if [4, 6, 9, 11].contains month then 30 else 31

def isDate (cs : List Char) : Bool :=
  match splitAt '-' cs with
  | [y, m, d] =>
    (y ++ m ++ d).all Char.isDigit && y.length = 4 && m.length = 2 && d.length = 2
      && 1 ≤ number m && number m ≤ 12 && 1 ≤ number d && number d ≤ daysIn (number y) (number m)
  | _ => false

/-- Two numbers of two digits each between 0 and their bounds. -/
def pair? (first second : Nat) (cs : List Char) : Option (Nat × Nat) :=
  match splitAt ':' cs with
  | [a, b] =>
    if (a ++ b).all Char.isDigit && a.length = 2 && b.length = 2 && number a ≤ first
        && number b ≤ second then
      some (number a, number b)
    else none
  | _ => none

/-- The minutes that a zone is ahead of the common time. -/
def zone? (cs : List Char) : Option Int :=
  match cs with
  | ['Z'] | ['z'] => some 0
  | '+' :: rest => (pair? 23 59 rest).map fun p => p.1 * 60 + p.2
  | '-' :: rest => (pair? 23 59 rest).map fun p => -(p.1 * 60 + p.2 : Int)
  | _ => none

/-- Hours, minutes, seconds, a fraction if wanted, and a zone. A leap second ends a day of the
common time. -/
def isTime (cs : List Char) : Bool :=
  let rest := cs.drop 8
  let fraction := (rest.drop 1).takeWhile Char.isDigit
  let zone := if rest.head? = some '.' then rest.drop (fraction.length + 1) else rest
  match pair? 23 59 (cs.take 5), (cs.drop 5).take 3, zone? zone with
  | some (hour, minute), [':', a, b], some ahead =>
    [a, b].all Char.isDigit && number [a, b] ≤ 60
      && (rest.head? ≠ some '.' || !fraction.isEmpty)
      && (number [a, b] ≠ 60 || ((hour * 60 + minute : Int) - ahead) % 1440 = 1439)
  | _, _, _ => false

def isDateTime (cs : List Char) : Bool :=
  let date := cs.takeWhile fun c => c ≠ 'T' && c ≠ 't'
  isDate date && isTime (cs.drop (date.length + 1))

def isHostname (cs : List Char) : Bool :=
  !cs.isEmpty && cs.length ≤ 255 && cs.head? ≠ some '-' && cs.getLast? ≠ some '-'
    && cs.all (fun c => c.isAlphanum || c = '-' || c = '.')
    && (splitAt '.' cs).all fun label => label.length ≤ 63

def isAtomChar (c : Char) : Bool :=
  c.isAlphanum || "!#$%&'*+-/=?^_\x60\x7b|\x7d~".toList.contains c || c.toNat > 127

def isMailbox (cs : List Char) : Bool :=
  match splitAt '@' cs with
  | [front, host] =>
    front.length ≤ 64 && (splitAt '.' front).all (fun atom => !atom.isEmpty && atom.all isAtomChar)
      && match host with
        | '[' :: 'I' :: 'P' :: 'v' :: '6' :: ':' :: rest =>
          rest.getLast? = some ']' && isAddress6 rest.dropLast
        | '[' :: rest => rest.getLast? = some ']' && isAddress4 rest.dropLast
        | _ => isHostname host
  | _ => false

def admits (name text : String) : Bool :=
  match name with
  | "uri" => isComplete text
  | "uri-reference" => isReference text
  | "regex" => Pattern.isPattern text
  | "json-pointer" => isPointer text.toList
  | "relative-json-pointer" => isRelativePointer text.toList
  | "date" => isDate text.toList
  | "time" => isTime text.toList
  | "date-time" => isDateTime text.toList
  | "ipv4" => isAddress4 text.toList
  | "ipv6" => isAddress6 text.toList
  | "hostname" => isHostname text.toList
  | "email" => isMailbox text.toList
  | _ => true

def digit64? (c : Char) : Option Nat :=
  if 'A' ≤ c && c ≤ 'Z' then some (c.toNat - 'A'.toNat)
  else if 'a' ≤ c && c ≤ 'z' then some (c.toNat - 'a'.toNat + 26)
  else if c.isDigit then some (c.toNat - '0'.toNat + 52)
  else if c = '+' then some 62
  else if c = '/' then some 63
  else none

/-- The bytes of a text whose last group is filled up with `=`; bits that are left over are zero. -/
def decode64? : List Char → Option (List UInt8)
  | [] => some []
  | [a, b, '=', '='] => do
    let n := (← digit64? a) * 64 + (← digit64? b)
    if n % 16 = 0 then some [UInt8.ofNat (n / 16)] else none
  | [a, b, c, '='] => do
    let n := ((← digit64? a) * 64 + (← digit64? b)) * 64 + (← digit64? c)
    if n % 4 = 0 then some [UInt8.ofNat (n / 1024), UInt8.ofNat (n / 4)] else none
  | a :: b :: c :: d :: rest => do
    let n := (((← digit64? a) * 64 + (← digit64? b)) * 64 + (← digit64? c)) * 64 + (← digit64? d)
    return [UInt8.ofNat (n / 65536), UInt8.ofNat (n / 256), UInt8.ofNat n] ++ (← decode64? rest)
  | _ => none

end Schemata.StringFormat
