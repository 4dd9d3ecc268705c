import Schemata.Tree.Basic
import Schemata.Yaml.Scalar
import Schemata.Yaml.Stream

/-!
# Writing trees as block documents

Collections are written one member a line. A string is plain where that reads back, single quoted
where it would read as something else, and literal where it has several lines; a string that none of
these can hold is double quoted. Lines are as long as they need to be.

A node is a list of lines, each with its line break; the lines behind the first carry their margin.
-/

namespace Schemata.Yaml.Block

def isPrintable (c : Char) : Bool :=
  let n := c.toNat
  n = 10 || (32 ≤ n && n ≤ 126) || (0xA0 ≤ n && n ≤ 0xFFFD && n ≠ 0xFEFF) || 0x10000 ≤ n

def isGap (c : Char) : Bool := isBlankChar c || isBreak c || c.toNat = 0

structure Traits where
  /-- It has a line break. -/
  multiline : Bool
  /-- Its first or last character is a blank or a break. -/
  padded : Bool
  endsInBlank : Bool
  blankAfterBreak : Bool
  blankBeforeBreak : Bool
  special : Bool
  indicator : Bool
deriving Repr

def startIndicators : List Char :=
  ['#', ',', '[', ']', '\x7b', '\x7d', '&', '*', '!', '|', '>', '\'', '"', '%', '@', '\x60']

/-- A character that would not be read as content where it stands. -/
def isIndicator (first : Bool) (before : Option Char) (c : Char) (after : Option Char) : Bool :=
  let gapBefore := before.all isGap
  let gapAfter := after.all isGap
  if first then
    startIndicators.contains c || ((c = '?' || c = ':' || c = '-') && gapAfter)
  else (c = ':' && gapAfter) || (c = '#' && gapBefore)

def hasIndicator (first : Bool) (before : Option Char) : List Char → Bool
  | [] => false
  | c :: rest => isIndicator first before c rest.head? || hasIndicator false (some c) rest

def hasPair (p q : Char → Bool) : List Char → Bool
  | [] => false
  | [_] => false
  | c :: d :: rest => (p c && q d) || hasPair p q (d :: rest)

def isBlankOrBreak (c : Char) : Bool := c = ' ' || isBreak c

def traits (cs : List Char) : Traits where
  multiline := cs.any isBreak
  padded := cs.head?.any isBlankOrBreak || cs.getLast?.any isBlankOrBreak
  endsInBlank := cs.getLast? = some ' '
  blankAfterBreak := hasPair isBreak (· = ' ') cs
  blankBeforeBreak := hasPair (· = ' ') isBreak cs
  special := cs.any (!isPrintable ·)
  indicator :=
    ['-', '-', '-'].isPrefixOf cs || ['.', '.', '.'].isPrefixOf cs || hasIndicator true none cs

namespace Traits

def admitsPlain (t : Traits) : Bool :=
  !t.multiline && !t.padded && !t.special && !t.indicator

def admitsSingleQuoted (t : Traits) : Bool :=
  !t.blankAfterBreak && !t.blankBeforeBreak && !t.special

def admitsLiteral (t : Traits) : Bool := !t.endsInBlank && !t.blankBeforeBreak && !t.special

end Traits

/-- A plain string that would be read as another kind of value, or nearly so. -/
def readsOtherwise (s : String) : Bool :=
  Scalar.ofPlain s ≠ .string s || Scalar.isPaddedDigits s.toList

inductive Style where
  | plain
  | singleQuoted
  | doubleQuoted
  | literal
deriving DecidableEq, Repr

def styleOf (s : String) : Style :=
  let t := traits s.toList
  if s.toList.contains '\n' then
    if t.admitsLiteral then .literal else .doubleQuoted
  else if !readsOtherwise s && t.admitsPlain then .plain
  else if s = "" || t.admitsSingleQuoted then .singleQuoted
  else .doubleQuoted

def margin (indent : Nat) : List Char := List.replicate indent ' '

/-- Breaks a text into lines behind its line breaks. -/
def linesOf (current : List Char) : List Char → List (List Char)
  | [] => if current.isEmpty then [] else [current.reverse]
  | c :: rest =>
    if isBreak c then (c :: current).reverse :: linesOf [] rest else linesOf (c :: current) rest

/-- A line behind its margin; a line that holds only its break has none. -/
def indentLine (indent : Nat) (line : List Char) : List Char :=
  if line.head?.any isBreak then line else margin indent ++ line

def endLine (line : List Char) : List Char :=
  if line.getLast?.any isBreak then line else line ++ ['\n']

/-- How a literal string says what becomes of the line breaks at its end, and that its first line
begins with a blank. -/
def literalHeader (cs : List Char) : List Char :=
  let start := if cs.head?.any isBlankOrBreak then ['2'] else []
  let chomping :=
    match cs.reverse with
    | [] => ['-']
    | c :: rest =>
      if !isBreak c then ['-']
      else
        match rest with
        | [] => ['+']
        | d :: _ => if isBreak d then ['+'] else []
  '|' :: start ++ chomping ++ ['\n']

def literalLines (indent : Nat) (cs : List Char) : List (List Char) :=
  literalHeader cs :: (linesOf [] cs).map fun l => endLine (indentLine indent l)

def doubleQuotes (c : Char) : List Char := if c = '\'' then ['\'', '\''] else [c]

def singleQuotedLines (indent : Nat) (cs : List Char) : List (List Char) :=
  match linesOf [] cs with
  | [] => [['\'', '\'', '\n']]
  | first :: rest =>
    let quoted := ('\'' :: first.flatMap doubleQuotes) ::
      rest.map fun l => indentLine indent (l.flatMap doubleQuotes)
    if cs.getLast?.any isBreak then quoted ++ [margin indent ++ ['\'', '\n']]
    else
      match quoted.reverse with
      | [] => []
      | last :: before => before.reverse ++ [last ++ ['\'', '\n']]

def hexDigits (width n : Nat) : List Char :=
  let ds := (Nat.toDigits 16 n).map Char.toUpper
  List.replicate (width - ds.length) '0' ++ ds

def namedEscapes : List (Nat × Char) := [
  (0, '0'), (7, 'a'), (8, 'b'), (9, 't'), (10, 'n'), (11, 'v'), (12, 'f'), (13, 'r'), (27, 'e'),
  (34, '"'), (92, '\\'), (0x85, 'N'), (0xA0, '_'), (0x2028, 'L'), (0x2029, 'P')]

def escape (c : Char) : List Char :=
  if isPrintable c && !isBreak c && c ≠ '"' && c ≠ '\\' then [c]
  else
    let n := c.toNat
    match namedEscapes.lookup n with
    | some e => ['\\', e]
    | none =>
      if n < 0x100 then '\\' :: 'x' :: hexDigits 2 n
      else if n < 0x10000 then '\\' :: 'u' :: hexDigits 4 n
      else '\\' :: 'U' :: hexDigits 8 n

def stringLines (indent : Nat) (s : String) : List (List Char) :=
  let cs := s.toList
  match styleOf s with
  | .plain => [cs ++ ['\n']]
  | .singleQuoted => singleQuotedLines indent cs
  | .doubleQuoted => ['"' :: cs.flatMap escape ++ ['"', '\n']]
  | .literal => literalLines indent cs

def isSimpleKey (key : String) : Bool :=
  !(traits key.toList).multiline && key.utf8ByteSize ≤ 128

def lead (text : List Char) : List (List Char) → List (List Char)
  | [] => [text ++ ['\n']]
  | line :: rest => (text ++ line) :: rest

def isCollection : Tree → Bool
  | .list (_ :: _) | .mapping (_ :: _) => true
  | _ => false

/-- The margin of a value: a list stands in the column of its key, anything else two columns
further; behind a key of its own line everything does. -/
def valueIndent (indent : Nat) (key : String) : Tree → Nat
  | .list (_ :: _) => if isSimpleKey key then indent else indent + 2
  | _ => indent + 2

def entryLines (indent : Nat) (key : String) (value : Tree) (lines : List (List Char)) :
    List (List Char) :=
  let keyLines := stringLines (indent + 2) key
  if isSimpleKey key then
    let keyText := keyLines.flatten.dropLast
    if isCollection value then
      (keyText ++ [':', '\n']) :: lead (margin (valueIndent indent key value)) lines
    else lead (keyText ++ [':', ' ']) lines
  else lead ['?', ' '] keyLines ++ lead (margin indent ++ [':', ' ']) lines

mutual
/-- The lines of a node with a margin for the lines behind the first. -/
def lines : Tree → Nat → List (List Char)
  | .null, _ => [['n', 'u', 'l', 'l', '\n']]
  | .bool b, _ => [(if b then "true" else "false").toList ++ ['\n']]
  | .number n, _ => [(n.text .block).toList ++ ['\n']]
  | .string s, indent => stringLines indent s
  | .list [], _ => [['[', ']', '\n']]
  | .list (t :: ts), indent => lead ['-', ' '] (lines t (indent + 2)) ++ itemLines ts indent
  | .mapping [], _ => [['\x7b', '\x7d', '\n']]
  | .mapping ((k, t) :: es), indent =>
    entryLines indent k t (lines t (valueIndent indent k t)) ++ entriesLines es indent
termination_by structural t => t

def itemLines : List Tree → Nat → List (List Char)
  | [], _ => []
  | t :: ts, indent =>
    lead (margin indent ++ ['-', ' ']) (lines t (indent + 2)) ++ itemLines ts indent
termination_by structural ts => ts

def entriesLines : List (String × Tree) → Nat → List (List Char)
  | [], _ => []
  | (k, t) :: es, indent =>
    lead (margin indent) (entryLines indent k t (lines t (valueIndent indent k t)))
      ++ entriesLines es indent
termination_by structural es => es
end

end Block

def block (t : Tree) : String :=
  String.ofList (Block.lines t (if Block.isCollection t then 0 else 2)).flatten

end Schemata.Yaml
