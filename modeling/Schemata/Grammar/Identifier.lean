/-!
# Uniform resource identifiers

The generic syntax of identifiers: an optional scheme, an optional authority, a path, an optional
query and an optional fragment, all in ASCII; other characters stand as percent escapes.
-/

namespace Schemata.Identifier

def isHex (c : Char) : Bool := c.isDigit || ('a' ≤ c && c ≤ 'f') || ('A' ≤ c && c ≤ 'F')

def isUnreserved (c : Char) : Bool := c.isAlphanum || c = '-' || c = '.' || c = '_' || c = '~'

def subDelimiters : List Char := ['!', '$', '&', '\'', '(', ')', '*', '+', ',', ';', '=']

def isNameChar (c : Char) : Bool := isUnreserved c || subDelimiters.contains c

def isPathChar (c : Char) : Bool := isNameChar c || c = ':' || c = '@'

/-- Characters of a kind and percent escapes. -/
def allEscaped (allowed : Char → Bool) : List Char → Bool
  | [] => true
  | c :: rest =>
    if c = '%' then
      match rest with
      | a :: b :: rest => isHex a && isHex b && allEscaped allowed rest
      | _ => false
    else allowed c && allEscaped allowed rest

def cut (sep : Char) (cs : List Char) : List Char × Option (List Char) :=
  match cs.dropWhile (· ≠ sep) with
  | [] => (cs, none)
  | _ :: rest => (cs.takeWhile (· ≠ sep), some rest)

def isScheme : List Char → Bool
  | [] => false
  | c :: cs => c.isAlpha && cs.all fun x => x.isAlphanum || x = '+' || x = '-' || x = '.'

def splitAt (sep : Char) : List Char → List (List Char)
  | [] => [[]]
  | c :: rest =>
    match splitAt sep rest with
    | [] => []
    | piece :: pieces => if c = sep then [] :: piece :: pieces else (c :: piece) :: pieces

def isOctet (cs : List Char) : Bool :=
  !cs.isEmpty && cs.length ≤ 3 && cs.all Char.isDigit && (cs.length = 1 || cs.head? ≠ some '0')
    && cs.foldl (fun n d => n * 10 + (d.toNat - '0'.toNat)) 0 ≤ 255

def isAddress4 (cs : List Char) : Bool :=
  let pieces := splitAt '.' cs
  pieces.length = 4 && pieces.all isOctet

def isGroup (cs : List Char) : Bool := !cs.isEmpty && cs.length ≤ 4 && cs.all isHex

/-- The number of groups in pieces between colons; the last piece of all may be a four-part address,
which counts twice. -/
def groupCount? (lastMayBeAddress4 : Bool) : List (List Char) → Option Nat
  | [] => some 0
  | [piece] =>
    if isGroup piece then some 1
    else if lastMayBeAddress4 && isAddress4 piece then some 2
    else none
  | piece :: rest =>
    if isGroup piece then (groupCount? lastMayBeAddress4 rest).map (· + 1) else none

def cutGap : List Char → Option (List Char × List Char)
  | ':' :: ':' :: rest => some ([], rest)
  | c :: rest => (cutGap rest).map fun p => (c :: p.1, p.2)
  | [] => none

/-- Eight groups, or fewer with one gap. -/
def isAddress6 (cs : List Char) : Bool :=
  let pieces (cs : List Char) := if cs.isEmpty then [] else splitAt ':' cs
  match cutGap cs with
  | none => groupCount? true (pieces cs) = some 8
  | some (before, after) =>
    match groupCount? false (pieces before), groupCount? true (pieces after) with
    | some m, some n => m + n ≤ 7
    | _, _ => false

def isFutureAddress : List Char → Bool
  | c :: cs =>
    (c = 'v' || c = 'V') &&
      match cut '.' cs with
      | (version, some address) =>
        !version.isEmpty && version.all isHex && !address.isEmpty
          && address.all fun x => isNameChar x || x = ':'
      | _ => false
  | [] => false

def isPort : List Char → Bool
  | [] => true
  | c :: cs => c = ':' && cs.all Char.isDigit

def isHostAndPort (cs : List Char) : Bool :=
  match cs with
  | '[' :: rest =>
    match cut ']' rest with
    | (address, some port) => (isAddress6 address || isFutureAddress address) && isPort port
    | _ => false
  | _ =>
    let host := cs.takeWhile (· ≠ ':')
    allEscaped isNameChar host && isPort (cs.drop host.length)

def isAuthority (cs : List Char) : Bool :=
  match cut '@' cs with
  | (user, some host) => allEscaped (fun c => isNameChar c || c = ':') user && isHostAndPort host
  | (host, none) => isHostAndPort host

def isPath (cs : List Char) : Bool := allEscaped (fun c => isPathChar c || c = '/') cs

def isHierarchy : List Char → Bool
  | '/' :: '/' :: rest =>
    let authority := rest.takeWhile (· ≠ '/')
    isAuthority authority && isPath (rest.drop authority.length)
  | cs => isPath cs

def isTail (cs : Option (List Char)) : Bool :=
  cs.all (allEscaped fun c => isPathChar c || c = '/' || c = '?')

/-- The scheme in front of the first colon of the first segment, and what follows. -/
def cutScheme (cs : List Char) : Option (List Char) × List Char :=
  match cut ':' cs with
  | (front, some rest) => if front.contains '/' then (none, cs) else (some front, rest)
  | (_, none) => (none, cs)

def holds (scheme : Option (List Char) → Bool) (text : String) : Bool :=
  let (front, fragment) := cut '#' text.toList
  let (front, query) := cut '?' front
  let (name, rest) := cutScheme front
  scheme name && isHierarchy rest && isTail query && isTail fragment

/-- An identifier, or a part of one that is completed by its context. -/
def isReference (text : String) : Bool := holds (fun s => s.all isScheme) text

def isComplete (text : String) : Bool := holds (fun s => s.any isScheme) text

end Schemata.Identifier
