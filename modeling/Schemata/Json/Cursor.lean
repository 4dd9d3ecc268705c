/-!
# Places in a JSON text

A `Cursor` is the unread part of a text and the place where it starts: a line from one and the
number of bytes read on that line. A fault is reported either at the cursor or just behind the next
byte, which is the place of a byte that was looked at and not accepted.
-/

namespace Schemata.Json

inductive Fault where
  | endInValue
  | endInList
  | endInObject
  | endInString
  | expectedColon
  | expectedListCommaOrEnd
  | expectedObjectCommaOrEnd
  | expectedWord
  | expectedValue
  | invalidEscape
  | invalidNumber
  | numberOutOfRange
  | controlCharacter
  | keyMustBeString
  | loneSurrogate
  | endOfEscape
  | trailingComma
  | trailingCharacters
  | tooDeep
  | custom (text : String)
deriving DecidableEq, Repr

def Fault.message : Fault → String
  | endInValue => "EOF while parsing a value"
  | endInList => "EOF while parsing a list"
  | endInObject => "EOF while parsing an object"
  | endInString => "EOF while parsing a string"
  | expectedColon => "expected \x60:\x60"
  | expectedListCommaOrEnd => "expected \x60,\x60 or \x60]\x60"
  | expectedObjectCommaOrEnd => "expected \x60,\x60 or \x60\x7d\x60"
  | expectedWord => "expected ident"
  | expectedValue => "expected value"
  | invalidEscape => "invalid escape"
  | invalidNumber => "invalid number"
  | numberOutOfRange => "number out of range"
  | controlCharacter => "control character (\\u0000-\\u001F) found while parsing a string"
  | keyMustBeString => "key must be a string"
  | loneSurrogate => "lone leading surrogate in hex escape"
  | endOfEscape => "unexpected end of hex escape"
  | trailingComma => "trailing comma"
  | trailingCharacters => "trailing characters"
  | tooDeep => "recursion limit exceeded"
  | custom text => text

structure Place where
  line : Nat
  column : Nat
deriving DecidableEq, Repr, Inhabited

structure Error where
  fault : Fault
  place : Place
deriving DecidableEq, Repr

def Error.message (e : Error) : String :=
  e.fault.message ++ " at line " ++ toString e.place.line ++ " column " ++ toString e.place.column

structure Cursor where
  rest : List Char
  place : Place
deriving Repr, Inhabited

namespace Cursor

def ofText (text : String) : Cursor := ⟨text.toList, ⟨1, 0⟩⟩

def peek? (c : Cursor) : Option Char := c.rest.head?

def Place.after (p : Place) (c : Char) : Place :=
  if c = '\n' then ⟨p.line + 1, 0⟩ else ⟨p.line, p.column + c.utf8Size⟩

def next (c : Cursor) : Cursor :=
  match c.rest with
  | [] => c
  | x :: rest => ⟨rest, Place.after c.place x⟩

def skip (c : Cursor) (n : Nat) : Cursor :=
  match n with
  | 0 => c
  | n + 1 => c.next.skip n

/-- The place behind the next `n` bytes, which need not end at the end of a character. -/
def placeAfterBytes (rest : List Char) (place : Place) (n : Nat) : Place :=
  match rest with
  | [] => place
  | x :: rest =>
    if n = 0 then place
    else if x.utf8Size ≤ n then placeAfterBytes rest (Place.after place x) (n - x.utf8Size)
    else ⟨place.line, place.column + n⟩

def fail {α : Type} (c : Cursor) (fault : Fault) : Except Error α :=
  .error ⟨fault, c.place⟩

/-- Reports the byte under the cursor. -/
def failPeek {α : Type} (c : Cursor) (fault : Fault) : Except Error α :=
  .error ⟨fault, placeAfterBytes c.rest c.place 1⟩

def isSpace (c : Char) : Bool := c = ' ' || c = '\n' || c = '\t' || c = '\r'

def skipSpace (c : Cursor) : Cursor :=
  go c.rest c.place
where
  go : List Char → Place → Cursor
    | [], place => ⟨[], place⟩
    | x :: rest, place => if isSpace x then go rest (Place.after place x) else ⟨x :: rest, place⟩

end Cursor

end Schemata.Json
