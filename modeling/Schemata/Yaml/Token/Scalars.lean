import Schemata.Yaml.Token.Names

/-!
# Scalars

Plain and quoted scalars fold their line breaks: one break becomes a space, of several the first is
dropped. A literal scalar keeps its breaks, a folded one joins lines that begin with a word. The
content of a scalar is complete when its token is.
-/

namespace Schemata.Yaml

namespace Token

/-- What lies between two words of a plain or quoted scalar: the blanks of one line, or the first
break and those after it. -/
structure Gap where
  blanks : List Char
  first : List Char
  later : List Char
  broken : Bool
deriving Inhabited

def Gap.none : Gap := ⟨[], [], [], false⟩

/-- What a gap contributes to the content. -/
def Gap.fold (g : Gap) : List Char :=
  if !g.broken then g.blanks
  else if g.first.head? = some '\n' then
    if g.later.isEmpty then [' '] else g.later
  else g.first ++ g.later

/-- Reads blanks and breaks into a gap. A tab left of `minColumn` may not indent a line. -/
def readGap (minColumn : Nat) (since : Mark) : Nat → Stream → Gap → Except Fault (Gap × Stream)
  | 0, s, g => .ok (g, s)
  | fuel + 1, s, g =>
    match s.peek with
    | Option.none => .ok (g, s)
    | some c =>
      if isBlankChar c then
        if g.broken && s.mark.column < minColumn && c = '\t' then
          s.fail .tabBeforePlain .plainScalar since
        else
          readGap minColumn since fuel s.next
            (if g.broken then g else { g with blanks := g.blanks ++ [c] })
      else if isBreak c then
        let (line, after) := s.nextLine
        readGap minColumn since fuel after
          (if g.broken then { g with later := g.later ++ line } else ⟨[], line, g.later, true⟩)
      else .ok (g, s)

/-- Whether a plain scalar ends before the next character. -/
def plainEnds (s : Stream) (inFlow : Bool) : Bool :=
  (s.startsWith ':' && s.isBlankBreakOrEndAt 1)
    || (inFlow && s.test (",[]\x7b\x7d".toList.contains ·))

def readPlainWord (inFlow : Bool) (since : Mark) :
    Nat → Stream → List Char → Except Fault (List Char × Stream)
  | 0, s, taken => .ok (taken, s)
  | fuel + 1, s, taken =>
    match s.peek with
    | none => .ok (taken, s)
    | some c =>
      if isBlankChar c || isBreak c then .ok (taken, s)
      else if inFlow && c = ':' && s.testAt 1 (",?[]\x7b\x7d".toList.contains ·) then
        s.fail .colonInFlow .plainScalar since
      else if plainEnds s inFlow then .ok (taken, s)
      else readPlainWord inFlow since fuel s.next (c :: taken)

structure PlainScalar where
  content : List Char
  stop : Mark
  /-- Whether the scalar ended behind a line break. -/
  broken : Bool
  after : Stream

/-- Reads a plain scalar word by word. `content` is what precedes the gap, last character first. -/
def readPlainWords (inFlow : Bool) (minColumn : Nat) (since : Mark) :
    Nat → Stream → List Char → Gap → Mark → Except Fault PlainScalar
  | 0, s, content, gap, stop => .ok ⟨content.reverse, stop, gap.broken, s⟩
  | fuel + 1, s, content, gap, stop =>
    if s.atDocumentIndicator || s.startsWith '#' then .ok ⟨content.reverse, stop, gap.broken, s⟩
    else do
      let (word, after) ← readPlainWord inFlow since (s.rest.length + 1) s []
      if word.isEmpty then return ⟨content.reverse, stop, gap.broken, after⟩
      let content := word ++ gap.fold.reverse ++ content
      let stop := after.mark
      if !after.test fun c => isBlankChar c || isBreak c then
        return ⟨content.reverse, stop, false, after⟩
      let (gap, after) ← readGap minColumn since (after.rest.length + 1) after .none
      if !inFlow && after.mark.column < minColumn then
        return ⟨content.reverse, stop, gap.broken, after⟩
      readPlainWords inFlow minColumn since fuel after content gap stop

def readPlain (s : Stream) (inFlow : Bool) (minColumn : Nat) :
    Except Fault (Token × Bool × Stream) := do
  let p ← readPlainWords inFlow minColumn s.mark (s.rest.length + 1) s [] .none s.mark
  return (⟨.scalar (String.ofList p.content) .plain, s.mark, p.stop⟩, p.broken, p.after)

def simpleEscape? (c : Char) : Option Char :=
  [('0', 0), ('a', 7), ('b', 8), ('t', 9), ('\t', 9), ('n', 10), ('v', 11), ('f', 12), ('r', 13),
    ('e', 0x1B), (' ', 0x20), ('"', 0x22), ('/', 0x2F), ('\\', 0x5C), ('N', 0x85), ('_', 0xA0),
    ('L', 0x2028), ('P', 0x2029)].lookup c |>.map Char.ofNat

def codeLength? (c : Char) : Option Nat :=
  [('x', 2), ('u', 4), ('U', 8)].lookup c

def readHex (since : Mark) (start : Stream) : Nat → Nat → Stream → Except Fault Nat
  | 0, code, _ => .ok code
  | n + 1, code, s =>
    match s.peek.bind hexDigit? with
    | some d => readHex since start n (code * 16 + d) s.next
    | none => start.fail .missingHexDigit .quotedEscape since

def readQuotedEscape (s : Stream) (since : Mark) : Except Fault (Char × Stream) :=
  let letter := s.peekAt 1
  match letter.bind simpleEscape?, letter.bind codeLength? with
  | some c, _ => .ok (c, s.skip 2)
  | none, some n => do
    let start := s.skip 2
    let code ← readHex since start n 0 start
    if (0xD800 ≤ code && code ≤ 0xDFFF) || code > 0x10FFFF then
      start.fail .invalidCodePoint .quotedEscape since
    else return (Char.ofNat code, start.skip n)
  | none, none => s.fail .unknownEscape .quotedEscape since

/-- Reads the characters of a quoted scalar up to a blank, a break or the closing quote; tells
whether they end with an escaped line break. -/
def readQuotedWord (single : Bool) (since : Mark) :
    Nat → Stream → List Char → Except Fault (List Char × Bool × Stream)
  | 0, s, taken => .ok (taken, false, s)
  | fuel + 1, s, taken =>
    match s.peek with
    | none => .ok (taken, false, s)
    | some c =>
      if isBlankChar c || isBreak c then .ok (taken, false, s)
      else if single && c = '\'' && s.testAt 1 (· = '\'') then
        readQuotedWord single since fuel (s.skip 2) ('\'' :: taken)
      else if c = (if single then '\'' else '"') then .ok (taken, false, s)
      else if !single && c = '\\' && s.testAt 1 isBreak then
        .ok (taken, true, s.next.nextLine.2)
      else if !single && c = '\\' then do
        let (x, after) ← readQuotedEscape s since
        readQuotedWord single since fuel after (x :: taken)
      else readQuotedWord single since fuel s.next (c :: taken)

def readQuotedWords (single : Bool) (since : Mark) :
    Nat → Stream → List Char → Except Fault (List Char × Stream)
  | 0, s, content => .ok (content.reverse, s)
  | fuel + 1, s, content =>
    if s.atDocumentIndicator then s.fail .documentIndicator .quotedScalar since
    else if s.atEnd then s.fail .endOfStream .quotedScalar since
    else do
      let (word, escapedBreak, after) ←
        readQuotedWord single since (s.rest.length + 1) s []
      let content := word ++ content
      if after.startsWith (if single then '\'' else '"') then return (content.reverse, after.next)
      let (gap, after) ←
        readGap 0 since (after.rest.length + 1) after { Gap.none with broken := escapedBreak }
      readQuotedWords single since fuel after (gap.fold.reverse ++ content)

def readQuoted (s : Stream) (single : Bool) : Except Fault (Token × Stream) := do
  let (content, after) ← readQuotedWords single s.mark (s.rest.length + 1) s.next []
  let style := if single then ScalarStyle.singleQuoted else .doubleQuoted
  return (⟨.scalar (String.ofList content) style, s.mark, after.mark⟩, after)

inductive Chomping where
  | strip
  | clip
  | keep
deriving DecidableEq

def chomping? (c : Char) : Option Chomping :=
  if c = '+' then some .keep else if c = '-' then some .strip else none

/-- Reads the chomping indicator and the explicit indentation of a block scalar, in either order. -/
def readBlockHeader (s : Stream) (since : Mark) : Except Fault (Chomping × Nat × Stream) := do
  let digit (s : Stream) : Except Fault (Nat × Stream) :=
    match s.peek with
    | some c =>
      if c = '0' then s.fail .zeroIndentation .blockScalar since
      else if c.isDigit then .ok (c.toNat - '0'.toNat, s.next)
      else .ok (0, s)
    | none => .ok (0, s)
  match s.peek.bind chomping? with
  | some chomping =>
    let (increment, after) ← digit s.next
    return (chomping, increment, after)
  | none =>
    let (increment, after) ← digit s
    match if increment = 0 then none else after.peek.bind chomping? with
    | some chomping => return (chomping, increment, after.next)
    | none => return (.clip, increment, after)

/-- Reads the empty lines and the indentation before a line of a block scalar; an indentation of
zero is still to be found. Gives the breaks, the widest indentation, and the place behind the last
break. -/
def readIndentation (since : Mark) (indent : Nat) :
    Nat → Stream → List Char → Nat → Mark → Except Fault (List Char × Nat × Mark × Stream)
  | 0, s, breaks, widest, stop => .ok (breaks, widest, stop, s)
  | fuel + 1, s, breaks, widest, stop =>
    let spaces := (s.rest.takeWhile (· = ' ')).length
    let s := s.skip (if indent = 0 then spaces else min spaces (indent - s.mark.column))
    let widest := max widest s.mark.column
    if (indent = 0 || s.mark.column < indent) && s.startsWith '\t' then
      s.fail .tabInIndentation .blockScalar since
    else if s.test isBreak then
      let (line, after) := s.nextLine
      readIndentation since indent fuel after (breaks ++ line) widest after.mark
    else .ok (breaks, widest, stop, s)

structure BlockLines where
  content : List Char
  /-- The break behind the last line. -/
  last : List Char
  /-- The empty lines behind it. -/
  trailing : List Char
  stop : Mark
  after : Stream

/-- Reads the lines of a block scalar. `content` holds what precedes, last character first, and
`indented` tells whether the last line began with a blank. -/
def readBlockLines (literal : Bool) (since : Mark) (indent : Nat) :
    Nat → Stream → List Char → List Char → List Char → Bool → Mark → Except Fault BlockLines
  | 0, s, content, last, trailing, _, stop => .ok ⟨content.reverse, last, trailing, stop, s⟩
  | fuel + 1, s, content, last, trailing, indented, stop =>
    if s.mark.column = indent && !s.atEnd then do
      let blank := s.test isBlankChar
      let joined :=
        if !literal && last.head? = some '\n' && !indented && !blank then
          if trailing.isEmpty then [' '] else trailing
        else last ++ trailing
      let (line, after) := s.takeWhile (!isBreak ·)
      let content := line.reverse ++ joined.reverse ++ content
      let (last, after) := after.nextLine
      let (trailing, _, stop, after) ←
        readIndentation since indent (after.rest.length + 1) after [] 0 after.mark
      readBlockLines literal since indent fuel after content last trailing blank stop
    else .ok ⟨content.reverse, last, trailing, stop, s⟩

def readBlock (s : Stream) (literal : Bool) (parentIndent : Int) :
    Except Fault (Token × Stream) := do
  let since := s.mark
  let (chomping, increment, after) ← readBlockHeader s.next since
  let after := (after.skipWhile isBlankChar).skipComment
  if !after.isBreakOrEndAt 0 then after.fail .missingLineEnd .blockScalar since
  let after := after.nextLine.2
  let given := if increment = 0 then 0 else (max parentIndent 0).toNat + increment
  let (leading, widest, stop, after) ←
    readIndentation since given (after.rest.length + 1) after [] 0 after.mark
  let indent := if given = 0 then max widest (max (parentIndent + 1) 1).toNat else given
  let lines ←
    readBlockLines literal since indent (after.rest.length + 1) after [] [] leading false stop
  let ending :=
    match chomping with
    | .strip => []
    | .clip => lines.last
    | .keep => lines.last ++ lines.trailing
  let style := if literal then ScalarStyle.literal else .folded
  return (⟨.scalar (String.ofList (lines.content ++ ending)) style, since, lines.stop⟩, lines.after)

end Token

end Schemata.Yaml
