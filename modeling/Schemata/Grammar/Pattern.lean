import Schemata.Text.Alphabetic
import Schemata.Text.Blank
import Schemata.Text.LetterCase

/-!
# Regular expressions

The syntax of patterns and their meaning. `Pattern.parse` reads a pattern; one that looks around is
told apart from a malformed one. A pattern occurs in a text when its `Matcher` leads from some place
of the text to another.
-/

namespace Schemata

inductive Matcher where
  | empty
  | one (p : Char → Bool)
  /-- A condition on the characters before and behind a place. -/
  | edge (p : Option Char → Option Char → Bool)
  | seq (a b : Matcher)
  | alt (a b : Matcher)
  | repeated (a : Matcher) (least : Nat) (most : Option Nat)

namespace Matcher

def insertPlace (n : Nat) : List Nat → List Nat
  | [] => [n]
  | m :: ms => if n < m then n :: m :: ms else if n = m then m :: ms else m :: insertPlace n ms

def union (xs ys : List Nat) : List Nat := xs.foldl (fun acc x => insertPlace x acc) ys

/-- Takes steps so often from some places. -/
def steps (step : List Nat → List Nat) : Nat → List Nat → List Nat
  | 0, places => places
  | n + 1, places => if places.isEmpty then [] else steps step n (step places)

/-- All places that up to so many steps lead to. -/
def closure (step : List Nat → List Nat) : Nat → List Nat → List Nat
  | 0, places => places
  | n + 1, places =>
    let more := union (step places) places
    if more = places then places else closure step n more

/-- The places of a text that a matcher leads to from some places. -/
def ends (text : Array Char) : Matcher → List Nat → List Nat
  | empty, places => places
  | one p, places => (places.filter fun i => text[i]?.any p).map (· + 1)
  | edge p, places =>
    places.filter fun i => p (if i = 0 then none else text[i - 1]?) text[i]?
  | seq a b, places => ends text b (ends text a places)
  | alt a b, places => union (ends text a places) (ends text b places)
  | repeated a least most, places =>
    let start := steps (ends text a) least places
    let bound := text.size + 1
    closure (ends text a) ((most.map fun m => min bound (m - least)).getD bound) start

def occursIn (m : Matcher) (text : String) : Bool :=
  let cs := text.toList.toArray
  !(ends cs m (List.range (cs.size + 1))).isEmpty

end Matcher

namespace Pattern

inductive Fault where
  | malformed
  | looksAround
deriving DecidableEq, Repr

structure Flags where
  ignoreCase : Bool
  multiLine : Bool
  dotAll : Bool
  free : Bool

def Flags.none : Flags := ⟨false, false, false, false⟩

def malformed {α : Type} : Except Fault α := .error .malformed

def skipFree (f : Flags) : List Char → List Char
  | [] => []
  | c :: rest =>
    if !f.free then c :: rest
    else if isBlank c then skipFree f rest
    else if c = '#' then skipComment rest
    else c :: rest
where
  skipComment : List Char → List Char
    | [] => []
    | c :: rest => if c = '\n' then skipFree f rest else skipComment rest

def isWord (c : Char) : Bool := c.isAlphanum || c = '_'

def isSpace (c : Char) : Bool := (isBlank c && c.toNat ≠ 0x85) || c.toNat = 0xFEFF

def isHex (c : Char) : Bool := c.isDigit || ('a' ≤ c && c ≤ 'f') || ('A' ≤ c && c ≤ 'F')

def hexDigitValue (c : Char) : Nat :=
  if c.isDigit then c.toNat - 48 else if c ≤ 'F' then c.toNat - 55 else c.toNat - 87

def hexValue (cs : List Char) : Nat := cs.foldl (fun n c => n * 16 + hexDigitValue c) 0

def charOf? (n : Nat) : Option Char := if n.isValidChar then some (Char.ofNat n) else none

/-- The characters of a named class. -/
def classNamed (name : List Char) : Char → Bool :=
  let n := String.ofList name
  if n = "L" || n = "Letter" || n = "Alphabetic" then isAlphabetic
  else if n = "Lu" || n = "Uppercase" || n = "Uppercase_Letter" then fun c => lowerCase c ≠ [c]
  else if n = "Ll" || n = "Lowercase" || n = "Lowercase_Letter" then fun c => upperCase c ≠ [c]
  else if n = "N" || n = "Nd" || n = "Number" || n = "digit" then Char.isDigit
  else fun _ => false

inductive Escape where
  | literal (c : Char)
  | class (p : Char → Bool)
  | edge (p : Option Char → Option Char → Bool)

def isMeta (c : Char) : Bool :=
  ['\\', '.', '+', '*', '?', '(', ')', '|', '[', ']', '\x7b', '\x7d', '^', '$', '#', '&', '-',
    '~'].contains c

/-- Signs that may be escaped though they need not be. -/
def isEscapable (c : Char) : Bool := c.toNat < 128 && !c.isAlphanum && c ≠ '<' && c ≠ '>'

def bracedDigits (f : Flags) :
    Nat → List Char → List Char → Except Fault (List Char × List Char)
  | 0, _, _ => malformed
  | fuel + 1, digits, cs =>
    match skipFree f cs with
    | [] => malformed
    | c :: rest =>
      if c = '\x7d' then .ok (digits.reverse, rest)
      else if isHex c then bracedDigits f fuel (c :: digits) rest
      else malformed

def plainDigits (f : Flags) :
    Nat → List Char → List Char → Except Fault (List Char × List Char)
  | 0, digits, cs => .ok (digits.reverse, cs)
  | count + 1, digits, cs =>
    match skipFree f cs with
    | [] => malformed
    | c :: rest => if isHex c then plainDigits f count (c :: digits) rest else malformed

def parseHex (f : Flags) (width : Nat) (cs : List Char) : Except Fault (Escape × List Char) := do
  let (digits, rest) ←
    match skipFree f cs with
    | '\x7b' :: rest => bracedDigits f (rest.length + 1) [] rest
    | cs => plainDigits f width [] cs
  match digits, charOf? (hexValue digits) with
  | _ :: _, some c => return (.literal c, rest)
  | _, _ => malformed

def parseClassName (f : Flags) (negated : Bool) (cs : List Char) :
    Except Fault (Escape × List Char) :=
  let result (name rest : List Char) : Except Fault (Escape × List Char) :=
    .ok (.class fun c => classNamed name c ≠ negated, rest)
  match skipFree f cs with
  | [] => malformed
  | '\\' :: _ => malformed
  | '\x7b' :: rest =>
    let name := rest.takeWhile (· ≠ '\x7d')
    match rest.drop name.length with
    | [] => malformed
    | _ :: rest => result name rest
  | c :: rest => result [c] rest

def atWordEdge (before after : Option Char) : Bool := before.any isWord != after.any isWord

def edgeNames : List (String × (Option Char → Option Char → Bool)) :=
  [("start", fun b a => !b.any isWord && a.any isWord),
    ("end", fun b a => b.any isWord && !a.any isWord),
    ("start-half", fun b _ => !b.any isWord), ("end-half", fun _ a => !a.any isWord)]

def parseWordEdge (f : Flags) (cs : List Char) : Except Fault (Escape × List Char) :=
  match cs with
  | '\x7b' :: inner =>
    match skipFree f inner with
    | [] => malformed
    | c :: rest =>
      if !(c.isAlpha || c = '-') then .ok (.edge atWordEdge, cs)
      else
        let name := (c :: rest).takeWhile fun x => x.isAlpha || x = '-'
        match (c :: rest).drop name.length, edgeNames.lookup (String.ofList name) with
        | '\x7d' :: rest, some p => .ok (.edge p, rest)
        | _, _ => malformed
  | _ => .ok (.edge atWordEdge, cs)

def parseEscape (f : Flags) (cs : List Char) : Except Fault (Escape × List Char) :=
  match cs with
  | [] => malformed
  | c :: rest =>
    if c.isDigit then malformed
    else if c = 'x' then parseHex f 2 rest
    else if c = 'u' then parseHex f 4 rest
    else if c = 'U' then parseHex f 8 rest
    else if c = 'p' then parseClassName f false rest
    else if c = 'P' then parseClassName f true rest
    else if c = 'd' then .ok (.class Char.isDigit, rest)
    else if c = 'D' then .ok (.class (!·.isDigit), rest)
    else if c = 's' then .ok (.class isSpace, rest)
    else if c = 'S' then .ok (.class (!isSpace ·), rest)
    else if c = 'w' then .ok (.class isWord, rest)
    else if c = 'W' then .ok (.class (!isWord ·), rest)
    else if isMeta c || isEscapable c then .ok (.literal c, rest)
    else if c = 'a' then .ok (.literal (Char.ofNat 7), rest)
    else if c = 'f' then .ok (.literal (Char.ofNat 12), rest)
    else if c = 't' then .ok (.literal '\t', rest)
    else if c = 'n' then .ok (.literal '\n', rest)
    else if c = 'r' then .ok (.literal '\r', rest)
    else if c = 'v' then .ok (.literal (Char.ofNat 11), rest)
    else if c = 'A' then .ok (.edge fun b _ => b.isNone, rest)
    else if c = 'z' then .ok (.edge fun _ a => a.isNone, rest)
    else if c = 'b' then parseWordEdge f rest
    else if c = 'B' then .ok (.edge fun b a => !atWordEdge b a, rest)
    else if c = '<' then .ok (.edge fun b a => !b.any isWord && a.any isWord, rest)
    else if c = '>' then .ok (.edge fun b a => b.any isWord && !a.any isWord, rest)
    else if c = 'c' then
      match rest with
      | x :: rest =>
        if x.isAlpha then .ok (.literal (Char.ofNat (x.toNat % 32)), rest) else malformed
      | [] => malformed
    else malformed

def sameAs (f : Flags) (c : Char) : Char → Bool :=
  if f.ignoreCase then fun x => x = c || lowerCase x = lowerCase c else (· = c)

def foldCase (f : Flags) (p : Char → Bool) : Char → Bool :=
  if f.ignoreCase then fun x => p x || (lowerCase x).any p || (upperCase x).any p else p

def asciiClasses : List (String × (Char → Bool)) :=
  [("alnum", Char.isAlphanum), ("alpha", Char.isAlpha), ("ascii", (·.toNat < 128)),
    ("blank", fun c => c = ' ' || c = '\t'), ("cntrl", fun c => c.toNat < 32 || c.toNat = 127),
    ("digit", Char.isDigit), ("graph", fun c => 33 ≤ c.toNat && c.toNat ≤ 126),
    ("lower", Char.isLower), ("print", fun c => 32 ≤ c.toNat && c.toNat ≤ 126),
    ("punct", fun c => 33 ≤ c.toNat && c.toNat ≤ 126 && !c.isAlphanum),
    ("space", fun c => c = ' ' || (9 ≤ c.toNat && c.toNat ≤ 13)), ("upper", Char.isUpper),
    ("word", isWord), ("xdigit", isHex)]

/-- A class such as `[:alpha:]` behind its first bracket. -/
def asciiClass? (cs : List Char) : Option ((Char → Bool) × List Char) :=
  match cs with
  | ':' :: rest =>
    let (negated, rest) :=
      match rest with
      | '^' :: rest => (true, rest)
      | _ => (false, rest)
    let name := rest.takeWhile (· ≠ ':')
    match rest.drop name.length, asciiClasses.lookup (String.ofList name) with
    | ':' :: ']' :: rest, some p => some (fun c => p c ≠ negated, rest)
    | _, _ => none
  | _ => none

def parseMember (f : Flags) : List Char → Except Fault (Escape × List Char)
  | [] => malformed
  | '\\' :: rest => parseEscape f rest
  | c :: rest => .ok (.literal c, rest)

def parseRange (f : Flags) (cs : List Char) : Except Fault ((Char → Bool) × List Char) := do
  let (first, rest) ← parseMember f cs
  let rest := skipFree f rest
  let single : Except Fault ((Char → Bool) × List Char) :=
    match first with
    | .literal c => .ok (sameAs f c, rest)
    | .class p => .ok (foldCase f p, rest)
    | .edge _ => malformed
  match rest with
  | [] => malformed
  | '-' :: behind =>
    match skipFree f behind with
    | [] => malformed
    | ']' :: _ => single
    | '-' :: _ => single
    | behind =>
      let (last, rest) ← parseMember f behind
      match first, last with
      | .literal a, .literal b =>
        if a ≤ b then return (foldCase f fun c => a ≤ c && c ≤ b, rest) else malformed
      | _, _ => malformed
  | _ => single

/-- The hyphens and the bracket that may begin a class. -/
def classStart (f : Flags) :
    Nat → Bool → List Char → Except Fault ((Char → Bool) × List Char)
  | 0, _, _ => malformed
  | fuel + 1, first, cs =>
    match skipFree f cs with
    | [] => malformed
    | '-' :: rest => do
      let (p, rest) ← classStart f fuel false rest
      return (fun c => c = '-' || p c, rest)
    | ']' :: rest =>
      if first then
        match skipFree f rest with
        | [] => malformed
        | rest => .ok ((· = ']'), rest)
      else .ok (fun _ => false, ']' :: rest)
    | cs => .ok (fun _ => false, cs)

abbrev Combine := (Char → Bool) → (Char → Bool) → Char → Bool

mutual
def parseClass (f : Flags) : Nat → List Char → Except Fault ((Char → Bool) × List Char)
  | 0, _ => malformed
  | fuel + 1, cs => do
    let (negated, cs) ←
      match skipFree f cs with
      | [] => malformed
      | '^' :: rest => .ok (true, rest)
      | cs => .ok (false, cs)
    let (start, cs) ← classStart f (cs.length + 1) true cs
    let (p, rest) ← classRest f fuel (fun _ q => q) (fun _ => false) start cs
    return (fun c => p c ≠ negated, rest)

/-- The rest of a class: `left` is the operand of an operation under way, `p` what has been read
since. -/
def classRest (f : Flags) :
    Nat → Combine → (Char → Bool) → (Char → Bool) → List Char →
      Except Fault ((Char → Bool) × List Char)
  | 0, _, _, _, _ => malformed
  | fuel + 1, op, left, p, cs =>
    let operation (next : Combine) (rest : List Char) : Except Fault ((Char → Bool) × List Char) :=
      classRest f fuel next (op left p) (fun _ => false) rest
    match skipFree f cs with
    | [] => malformed
    | ']' :: rest => .ok (op left p, rest)
    | '&' :: '&' :: rest => operation (fun a b c => a c && b c) rest
    | '-' :: '-' :: rest => operation (fun a b c => a c && !b c) rest
    | '~' :: '~' :: rest => operation (fun a b c => a c != b c) rest
    | '[' :: rest =>
      match asciiClass? rest with
      | some (q, rest) => classRest f fuel op left (fun c => p c || q c) rest
      | none => do
        let (q, rest) ← parseClass f fuel rest
        classRest f fuel op left (fun c => p c || q c) rest
    | cs => do
      let (q, rest) ← parseRange f cs
      classRest f fuel op left (fun c => p c || q c) rest
end

inductive Opening where
  | flags (f : Flags)
  | group (f : Flags) (name : Option (List Char))

def setFlag (f : Flags) (on : Bool) (c : Char) : Option Flags :=
  if c = 'i' then some { f with ignoreCase := on }
  else if c = 'm' then some { f with multiLine := on }
  else if c = 's' then some { f with dotAll := on }
  else if c = 'x' then some { f with free := on }
  else if c = 'U' || c = 'u' || c = 'R' then some f
  else none

/-- Flags up to a colon or a closing bracket; `seen` holds those read, a hyphen among them. -/
def parseFlags (f : Flags) (seen : List Char) : List Char → Except Fault (Opening × List Char)
  | [] => malformed
  | c :: rest =>
    if c = ':' || c = ')' then
      if seen.head? = some '-' then malformed
      else if c = ':' then .ok (.group f none, rest)
      else if seen.isEmpty then malformed
      else .ok (.flags f, rest)
    else if seen.contains c then malformed
    else if c = '-' then parseFlags f ('-' :: seen) rest
    else
      match setFlag f (!seen.contains '-') c with
      | some f => parseFlags f (c :: seen) rest
      | none => malformed

def isNameStart (c : Char) : Bool := c = '_' || isAlphabetic c

def isNamePart (c : Char) : Bool :=
  isNameStart c || c.isDigit || c = '.' || c = '[' || c = ']'

def parseName (f : Flags) (names : List (List Char)) (cs : List Char) :
    Except Fault (Opening × List Char) :=
  let name := cs.takeWhile (· ≠ '>')
  match cs.drop name.length, name with
  | _ :: rest, c :: tail =>
    if isNameStart c && tail.all isNamePart && !names.contains name then
      .ok (.group f (some name), rest)
    else malformed
  | _, _ => malformed

def parseOpening (f : Flags) (names : List (List Char)) (cs : List Char) :
    Except Fault (Opening × List Char) :=
  match skipFree f cs with
  | '?' :: '=' :: _ | '?' :: '!' :: _ | '?' :: '<' :: '=' :: _ | '?' :: '<' :: '!' :: _ =>
    .error .looksAround
  | '?' :: 'P' :: '<' :: rest | '?' :: '<' :: rest => parseName f names rest
  | '?' :: rest => parseFlags f [] rest
  | cs => .ok (.group f none, cs)

def parseDecimal (cs : List Char) : Option Nat × List Char :=
  let cs := cs.dropWhile isBlank
  let digits := cs.takeWhile Char.isDigit
  let rest := (cs.drop digits.length).dropWhile isBlank
  if digits.isEmpty then (none, rest)
  else (some (digits.foldl (fun n d => n * 10 + (d.toNat - 48)) 0), rest)

/-- The bounds of a repetition behind its opening brace. -/
def parseBounds (f : Flags) (cs : List Char) : Except Fault ((Nat × Option Nat) × List Char) :=
  let fits (n : Nat) : Bool := n < Nat.pow 2 32
  match parseDecimal (skipFree f cs) with
  | (least, ',' :: rest) =>
    match skipFree f rest with
    | [] => malformed
    | '\x7d' :: rest =>
      match least with
      | some m => if fits m then .ok ((m, none), rest) else malformed
      | none => malformed
    | rest =>
      match least, parseDecimal rest with
      | some m, (some n, '\x7d' :: rest) =>
        if fits m && fits n && m ≤ n then .ok ((m, some n), rest) else malformed
      | _, _ => malformed
  | (some m, '\x7d' :: rest) => if fits m then .ok ((m, some m), rest) else malformed
  | _ => malformed

/-- A question mark behind a repetition says which of several matches is meant; that one exists is
not changed by it. -/
def skipLazy : List Char → List Char
  | '?' :: rest => rest
  | cs => cs

/-- A piece of a sequence: a matcher, or flags, which cannot be repeated. -/
abbrev Piece := Option Matcher

def sequence (pieces : List Piece) : Matcher :=
  pieces.foldl (fun acc p => p.elim acc (.seq acc)) .empty

/-- Repeats the last piece. -/
def repeatLast (pieces : List Piece) (least : Nat) (most : Option Nat) :
    Except Fault (List Piece) :=
  match pieces.reverse with
  | some m :: before => .ok (before.reverse ++ [some (.repeated m least most)])
  | _ => malformed

def parsePrimitive (f : Flags) (c : Char) (rest : List Char) : Except Fault (Matcher × List Char) :=
  if c = '\\' then do
    match ← parseEscape f rest with
    | (.literal c, rest) => return (.one (sameAs f c), rest)
    | (.class p, rest) => return (.one (foldCase f p), rest)
    | (.edge p, rest) => return (.edge p, rest)
  else if c = '.' then .ok (.one fun x => f.dotAll || x ≠ '\n', rest)
  else if c = '^' then .ok (.edge fun b _ => b.isNone || (f.multiLine && b = some '\n'), rest)
  else if c = '$' then .ok (.edge fun _ a => a.isNone || (f.multiLine && a = some '\n'), rest)
  else .ok (.one (sameAs f c), rest)

/-- Reads up to the end of a group or, outside groups, of the text. `done` is what stands before the
last bar, `pieces` what stands behind it, `names` the group names used. -/
def parseGroup (inGroup : Bool) :
    Nat → Flags → List (List Char) → Option Matcher → List Piece → List Char →
      Except Fault ((Matcher × List (List Char)) × List Char)
  | 0, _, _, _, _, _ => malformed
  | fuel + 1, f, names, done, pieces, cs =>
    let whole : Matcher := done.elim (sequence pieces) fun d => .alt d (sequence pieces)
    let again (least : Nat) (most : Option Nat) (rest : List Char) := do
      let pieces ← repeatLast pieces least most
      parseGroup inGroup fuel f names done pieces (skipLazy rest)
    match skipFree f cs with
    | [] => if inGroup then malformed else .ok ((whole, names), [])
    | ')' :: rest => if inGroup then .ok ((whole, names), rest) else malformed
    | '|' :: rest => parseGroup inGroup fuel f names (some whole) [] rest
    | '(' :: rest => do
      match ← parseOpening f names rest with
      | (.flags f, rest) => parseGroup inGroup fuel f names done (pieces ++ [none]) rest
      | (.group g name, rest) =>
        let ((m, names), rest) ← parseGroup true fuel g (name.toList ++ names) none [] rest
        parseGroup inGroup fuel f names done (pieces ++ [some m]) rest
    | '[' :: rest => do
      let (p, rest) ← parseClass f (2 * rest.length + 2) rest
      parseGroup inGroup fuel f names done (pieces ++ [some (.one p)]) rest
    | '?' :: rest => again 0 (some 1) rest
    | '*' :: rest => again 0 none rest
    | '+' :: rest => again 1 none rest
    | '\x7b' :: rest => do
      let ((least, most), rest) ← parseBounds f rest
      again least most (skipFree f rest)
    | c :: rest => do
      let (m, rest) ← parsePrimitive f c rest
      parseGroup inGroup fuel f names done (pieces ++ [some m]) rest

def parse (text : String) : Except Fault Matcher :=
  let cs := text.toList
  match parseGroup false (cs.length + 1) .none [] none [] cs with
  | .ok ((m, _), _) => .ok m
  | .error e => .error e

/-- A text is a pattern also when it looks around. -/
def isPattern (text : String) : Bool :=
  match parse text with
  | .ok _ | .error .looksAround => true
  | .error .malformed => false

def occurs (pattern text : String) : Bool :=
  match parse pattern with
  | .ok m => m.occursIn text
  | .error _ => true

end Pattern

end Schemata
