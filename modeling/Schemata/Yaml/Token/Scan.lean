import Schemata.Yaml.Token.Scalars

/-!
# Cutting a stream into tokens

A `Scanner` holds the unread stream, the indentation of the open block collections, and the places
where a simple key may have begun: a scalar turns out to be a key only when the `:` behind it is
read, and then the tokens that open the key are put before it. `tokens` delivers tokens in the order
in which they are final, and stops at the first fault; tokens that wait for a possible key are not
delivered when a fault comes first.
-/

namespace Schemata.Yaml

/-- A place where a simple key may have begun, and the number of its first token. -/
structure KeyPlace where
  number : Nat
  mark : Mark
  required : Bool
deriving Repr, Inhabited

/-- A key lies on one line and within 1024 characters. -/
def KeyPlace.isStale (k : KeyPlace) (m : Mark) : Bool :=
  k.mark.line < m.line || k.mark.index + 1024 < m.index

structure Scanner where
  stream : Stream
  /-- Tokens that are read and not delivered. -/
  queue : List Token
  delivered : Nat
  started : Bool
  finished : Bool
  /-- Column of the innermost block collection, `-1` outside all. -/
  indent : Int
  outerIndents : List Int
  keyAllowed : Bool
  /-- For the block level and every open flow collection, innermost first. -/
  keys : List (Option KeyPlace)
deriving Inhabited

namespace Scanner

def ofStream (s : Stream) : Scanner := ⟨s, [], 0, false, false, -1, [], false, [none]⟩

def inFlow (p : Scanner) : Bool := p.keys.length > 1

def push (p : Scanner) (t : Token) : Scanner := { p with queue := p.queue ++ [t] }

def insertAt (p : Scanner) (number : Nat) (t : Token) : Scanner :=
  let i := number - p.delivered
  { p with queue := p.queue.take i ++ t :: p.queue.drop i }

def missingColon {α : Type} (p : Scanner) (k : KeyPlace) : Except Fault α :=
  p.stream.fail .missingColon .simpleKey k.mark

/-- Gives up the places that can no longer begin a key, the outermost first. -/
def dropStaleKeys (p : Scanner) : Except Fault Scanner := do
  let m := p.stream.mark
  match p.keys.reverse.findSome? fun k =>
      k.filter fun k => k.isStale m && k.required with
  | some k => p.missingColon k
  | none => return { p with keys := p.keys.map (·.filter (!·.isStale m)) }

def setKey (p : Scanner) (k : Option KeyPlace) : Scanner :=
  { p with keys := k :: p.keys.drop 1 }

def currentKey (p : Scanner) : Option KeyPlace := p.keys.head?.join

def removeKey (p : Scanner) : Except Fault Scanner :=
  match p.currentKey with
  | some k => if k.required then p.missingColon k else .ok (p.setKey none)
  | none => .ok p

def saveKey (p : Scanner) : Except Fault Scanner :=
  if p.keyAllowed then do
    let required := !p.inFlow && p.indent = (p.stream.mark.column : Int)
    let q ← p.removeKey
    return q.setKey (some ⟨p.delivered + p.queue.length, p.stream.mark, required⟩)
  else .ok p

/-- Opens a block collection at a column to the right of the current one; its token goes last, or
before the token of a given number. -/
def openBlock (p : Scanner) (column : Nat) (number : Option Nat) (kind : TokenKind)
    (m : Mark) : Scanner :=
  if !p.inFlow && p.indent < (column : Int) then
    let p := { p with outerIndents := p.indent :: p.outerIndents, indent := column }
    match number with
    | some n => p.insertAt n ⟨kind, m, m⟩
    | none => p.push ⟨kind, m, m⟩
  else p

def closeBlocks (p : Scanner) (column : Int) : Scanner :=
  if p.inFlow then p
  else
    let all := p.indent :: p.outerIndents
    let closed := all.takeWhile (column < ·)
    let open' := all.drop closed.length
    { p with
      queue := p.queue ++ closed.map fun _ => ⟨.blockEnd, p.stream.mark, p.stream.mark⟩
      indent := open'.head?.getD (-1)
      outerIndents := open'.drop 1 }

/-- Skips blanks, comments and line breaks. A tab counts as a blank where no key may begin. -/
def skipToToken : Nat → Scanner → Scanner
  | 0, p => p
  | fuel + 1, p =>
    let s := p.stream
    let s := if s.mark.column = 0 && s.test (·.toNat = 0xFEFF) then s.next else s
    let s := s.skipWhile fun c => c = ' ' || (c = '\t' && (p.inFlow || !p.keyAllowed))
    let s := s.skipComment
    if s.test isBreak then
      skipToToken fuel
        { p with stream := s.nextLine.2, keyAllowed := p.keyAllowed || !p.inFlow }
    else { p with stream := s }

/-- Appends a token made of the next `n` characters. -/
def indicator (p : Scanner) (n : Nat) (kind : TokenKind) : Scanner :=
  let after := p.stream.skip n
  { p with stream := after }.push ⟨kind, p.stream.mark, after.mark⟩

def fetchEnd (p : Scanner) : Except Fault Scanner := do
  let s := p.stream
  let m := if s.mark.column = 0 then s.mark else ⟨s.mark.index, s.mark.line + 1, 0⟩
  let p := { p with stream := { s with mark := m } }
  let p ← (p.closeBlocks (-1)).removeKey
  return { p with keyAllowed := false, finished := true }.push ⟨.streamEnd, m, m⟩

def fetchDirective (p : Scanner) : Except Fault Scanner := do
  let p ← (p.closeBlocks (-1)).removeKey
  let (t, after) ← Token.readDirective p.stream
  return { p with keyAllowed := false, stream := after }.push t

def fetchDocumentIndicator (p : Scanner) (kind : TokenKind) : Except Fault Scanner := do
  let p ← (p.closeBlocks (-1)).removeKey
  return { p with keyAllowed := false }.indicator 3 kind

def fetchFlowStart (p : Scanner) (kind : TokenKind) : Except Fault Scanner := do
  let p ← p.saveKey
  return { p with keys := none :: p.keys, keyAllowed := true }.indicator 1 kind

def fetchFlowEnd (p : Scanner) (kind : TokenKind) : Except Fault Scanner := do
  let p ← p.removeKey
  let keys := if p.inFlow then p.keys.drop 1 else p.keys
  return { p with keys := keys, keyAllowed := false }.indicator 1 kind

def fetchFlowEntry (p : Scanner) : Except Fault Scanner := do
  let p ← p.removeKey
  return { p with keyAllowed := true }.indicator 1 .flowEntry

def fetchBlockEntry (p : Scanner) : Except Fault Scanner := do
  if !p.inFlow && !p.keyAllowed then p.stream.failBare .entriesNotAllowed
  let p ← (p.openBlock p.stream.mark.column none .blockSequenceStart p.stream.mark).removeKey
  return { p with keyAllowed := true }.indicator 1 .blockEntry

def fetchKey (p : Scanner) : Except Fault Scanner := do
  if !p.inFlow && !p.keyAllowed then p.stream.failBare .keysNotAllowed
  let p ← (p.openBlock p.stream.mark.column none .blockMappingStart p.stream.mark).removeKey
  return { p with keyAllowed := !p.inFlow }.indicator 1 .key

def fetchValue (p : Scanner) : Except Fault Scanner := do
  match p.currentKey with
  | some k =>
    let p := p.insertAt k.number ⟨.key, k.mark, k.mark⟩
    let p := p.openBlock k.mark.column (some k.number) .blockMappingStart k.mark
    return { p.setKey none with keyAllowed := false }.indicator 1 .value
  | none =>
    if !p.inFlow && !p.keyAllowed then p.stream.failBare .valuesNotAllowed
    let p := p.openBlock p.stream.mark.column none .blockMappingStart p.stream.mark
    return { p with keyAllowed := !p.inFlow }.indicator 1 .value

def fetchAnchor (p : Scanner) (isAlias : Bool) : Except Fault Scanner := do
  let p ← p.saveKey
  let (t, after) ← Token.readAnchor p.stream isAlias
  return { p with keyAllowed := false, stream := after }.push t

def fetchTag (p : Scanner) : Except Fault Scanner := do
  let p ← p.saveKey
  let (t, after) ← Token.readTag p.stream p.inFlow
  return { p with keyAllowed := false, stream := after }.push t

def fetchBlockScalar (p : Scanner) (literal : Bool) : Except Fault Scanner := do
  let p ← p.removeKey
  let (t, after) ← Token.readBlock p.stream literal p.indent
  return { p with keyAllowed := true, stream := after }.push t

def fetchQuoted (p : Scanner) (single : Bool) : Except Fault Scanner := do
  let p ← p.saveKey
  let (t, after) ← Token.readQuoted p.stream single
  return { p with keyAllowed := false, stream := after }.push t

def fetchPlain (p : Scanner) : Except Fault Scanner := do
  let p ← p.saveKey
  let (t, broken, after) ← Token.readPlain p.stream p.inFlow (p.indent + 1).toNat
  return { p with keyAllowed := broken, stream := after }.push t

def startsPlain (p : Scanner) (c : Char) : Bool :=
  let s := p.stream
  let indicators := "-?:,[]\x7b\x7d#&*!|>'\"%@\x60".toList
  !(isBlankChar c || isBreak c || indicators.contains c)
    || (c = '-' && !s.testAt 1 isBlankChar)
    || (!p.inFlow && (c = '?' || c = ':') && !s.isBlankBreakOrEndAt 1)

def fetch (p : Scanner) : Except Fault Scanner := do
  if !p.started then
    let m := p.stream.mark
    return { p with started := true, keyAllowed := true }.push ⟨.streamStart, m, m⟩
  let p ← (skipToToken (p.stream.rest.length + 1) p).dropStaleKeys
  let p := p.closeBlocks p.stream.mark.column
  let s := p.stream
  match s.peek with
  | none => p.fetchEnd
  | some c =>
    if s.mark.column = 0 && c = '%' then p.fetchDirective
    else if s.atIndicator '-' then p.fetchDocumentIndicator .documentStart
    else if s.atIndicator '.' then p.fetchDocumentIndicator .documentEnd
    else if c = '[' then p.fetchFlowStart .flowSequenceStart
    else if c = '\x7b' then p.fetchFlowStart .flowMappingStart
    else if c = ']' then p.fetchFlowEnd .flowSequenceEnd
    else if c = '\x7d' then p.fetchFlowEnd .flowMappingEnd
    else if c = ',' then p.fetchFlowEntry
    else if c = '-' && s.isBlankBreakOrEndAt 1 then p.fetchBlockEntry
    else if c = '?' && (p.inFlow || s.isBlankBreakOrEndAt 1) then p.fetchKey
    else if c = ':' && (p.inFlow || s.isBlankBreakOrEndAt 1) then p.fetchValue
    else if c = '*' then p.fetchAnchor true
    else if c = '&' then p.fetchAnchor false
    else if c = '!' then p.fetchTag
    else if c = '|' && !p.inFlow then p.fetchBlockScalar true
    else if c = '>' && !p.inFlow then p.fetchBlockScalar false
    else if c = '\'' then p.fetchQuoted true
    else if c = '"' then p.fetchQuoted false
    else if p.startsPlain c then p.fetchPlain
    else s.fail .strayCharacter .nextToken s.mark

/-- Reads on until the first token of the queue is final: no key can begin before it any more. -/
def fetchMore : Nat → Scanner → Except Fault Scanner
  | 0, p => .ok p
  | fuel + 1, p =>
    if p.queue.isEmpty then do fetchMore fuel (← p.fetch)
    else do
      let p ← p.dropStaleKeys
      if p.keys.any (·.any (·.number = p.delivered)) then fetchMore fuel (← p.fetch)
      else return p

def deliver : Nat → Scanner → List Token → List Token × Option Fault
  | 0, _, done => (done.reverse, none)
  | fuel + 1, p, done =>
    match fetchMore (p.stream.rest.length + 3) p with
    | .error e => (done.reverse, some e)
    | .ok p =>
      match p.queue with
      | [] => (done.reverse, none)
      | t :: queue =>
        if t.kind = .streamEnd then ((t :: done).reverse, none)
        else deliver fuel { p with queue := queue, delivered := p.delivered + 1 } (t :: done)

end Scanner

def tokens (text : String) : List Token × Option Fault :=
  match Stream.ofText text with
  | .error e => ([], some e)
  | .ok s => (Scanner.ofStream s).deliver (4 * s.rest.length + 16) []

end Schemata.Yaml
