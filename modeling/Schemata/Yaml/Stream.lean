import Schemata.Yaml.Mark

/-!
# The characters of a YAML stream

A `Stream` is the unread part of a text and its place. Line breaks are `CR LF`, `CR`, `LF`, `NEL`,
`LS` and `PS`; the last two are kept as they are, the others are read as one line feed. A byte order
mark at the start is dropped before anything is counted.
-/

namespace Schemata.Yaml

def isAllowed (c : Char) : Bool :=
  let n := c.toNat
  n = 9 || n = 10 || n = 13 || (32 ≤ n && n ≤ 126) || n = 0x85 || (0xA0 ≤ n && n ≤ 0xD7FF)
    || (0xE000 ≤ n && n ≤ 0xFFFD) || 0x10000 ≤ n

def isBreak (c : Char) : Bool :=
  let n := c.toNat
  n = 10 || n = 13 || n = 0x85 || n = 0x2028 || n = 0x2029

def isBlankChar (c : Char) : Bool := c = ' ' || c = '\t'

def isNameChar (c : Char) : Bool := c.isAlphanum || c = '-' || c = '_'

structure Stream where
  rest : List Char
  mark : Mark
deriving Repr, Inhabited

namespace Stream

/-- The byte at which the first character stands that no document may have. -/
def forbiddenAt? (offset : Nat) : List Char → Option Nat
  | [] => none
  | c :: rest => if isAllowed c then forbiddenAt? (offset + c.utf8Size) rest else some offset

/-- Checks every character, then drops a byte order mark. -/
def ofText (text : String) : Except Fault Stream :=
  match forbiddenAt? 0 text.toList, text.toList with
  | some offset, _ => .error (.forbiddenCharacter offset)
  | none, c :: rest => .ok ⟨if c.toNat = 0xFEFF then rest else c :: rest, .start⟩
  | none, [] => .ok ⟨[], .start⟩

def peekAt (s : Stream) (n : Nat) : Option Char := s.rest[n]?

def peek (s : Stream) : Option Char := s.rest.head?

def startsWith (s : Stream) (c : Char) : Bool := s.peek = some c

def atEnd (s : Stream) : Bool := s.rest.isEmpty

def testAt (s : Stream) (n : Nat) (p : Char → Bool) : Bool := (s.peekAt n).any p

def test (s : Stream) (p : Char → Bool) : Bool := s.testAt 0 p

def isBreakOrEndAt (s : Stream) (n : Nat) : Bool := (s.peekAt n).all isBreak

def isBlankBreakOrEndAt (s : Stream) (n : Nat) : Bool :=
  (s.peekAt n).all fun c => isBlankChar c || isBreak c

def next (s : Stream) : Stream :=
  match s.rest with
  | [] => s
  | _ :: rest => ⟨rest, ⟨s.mark.index + 1, s.mark.line, s.mark.column + 1⟩⟩

def skip (s : Stream) : Nat → Stream
  | 0 => s
  | n + 1 => s.next.skip n

/-- Takes a line break, if there is one, and gives the character that it stands for. -/
def nextLine (s : Stream) : List Char × Stream :=
  let line (chars : Nat) : Mark := ⟨s.mark.index + chars, s.mark.line + 1, 0⟩
  match s.rest with
  | '\r' :: '\n' :: rest => (['\n'], ⟨rest, line 2⟩)
  | c :: rest =>
    if c.toNat = 0x2028 || c.toNat = 0x2029 then ([c], ⟨rest, line 1⟩)
    else if isBreak c then (['\n'], ⟨rest, line 1⟩)
    else ([], s)
  | [] => ([], s)

def takeWhile (s : Stream) (p : Char → Bool) : List Char × Stream :=
  let taken := s.rest.takeWhile p
  (taken, s.skip taken.length)

def skipWhile (s : Stream) (p : Char → Bool) : Stream := (s.takeWhile p).2

def skipComment (s : Stream) : Stream :=
  if s.startsWith '#' then s.skipWhile (!isBreak ·) else s

/-- Three times one indicator at the beginning of a line, before a blank or the end. -/
def atIndicator (s : Stream) (c : Char) : Bool :=
  s.mark.column = 0 && s.testAt 0 (· = c) && s.testAt 1 (· = c) && s.testAt 2 (· = c)
    && s.isBlankBreakOrEndAt 3

def atDocumentIndicator (s : Stream) : Bool := s.atIndicator '-' || s.atIndicator '.'

def fail {α : Type} (s : Stream) (problem : Problem) (activity : Activity) (since : Mark) :
    Except Fault α :=
  .error (.malformed problem s.mark (some (activity, since)))

def failBare {α : Type} (s : Stream) (problem : Problem) : Except Fault α :=
  .error (.malformed problem s.mark none)

end Stream

end Schemata.Yaml
