import Schemata.Yaml.Token.Scan

/-!
# Events of YAML

Events are tokens after the grammar has matched them: documents, collections and scalars, with
anchors and resolved tags attached. `events` gives the events of a text up to its end or to the
first fault, of a token or of the grammar, whichever is reached first.
-/

namespace Schemata.Yaml

structure Properties where
  anchor : Option String
  tag : Option String
deriving DecidableEq, Repr, Inhabited

def Properties.none : Properties := ⟨Option.none, Option.none⟩

inductive EventKind where
  | documentStart
  | documentEnd
  | alias (name : String)
  | scalar (properties : Properties) (content : String) (style : ScalarStyle)
  | sequenceStart (properties : Properties)
  | sequenceEnd
  | mappingStart (properties : Properties)
  | mappingEnd
deriving DecidableEq, Repr, Inhabited

structure Event where
  kind : EventKind
  mark : Mark
deriving DecidableEq, Repr, Inhabited

namespace Event

/-- The tokens to read and the fault behind them, the tag directives of the document, and the
events made so far, last one first. -/
structure Parsing where
  tokens : List Token
  fault : Option Fault
  directives : List (String × String)
  made : List Event
deriving Inhabited

abbrev Parse := ExceptT Fault (StateM Parsing)

/-- Looks at the next token; behind the last one lies the fault. -/
def peek : Parse Token := do
  let p ← get
  match p.tokens, p.fault with
  | t :: _, _ => return t
  | [], some e => throw e
  | [], none => return ⟨.streamEnd, .start, .start⟩

def advance : Parse Unit := modify fun p => { p with tokens := p.tokens.drop 1 }

def emit (kind : EventKind) (mark : Mark) : Parse Unit :=
  modify fun p => { p with made := ⟨kind, mark⟩ :: p.made }

def emitEmpty (mark : Mark) : Parse Unit := emit (.scalar .none "" .plain) mark

def fail {α : Type} (problem : Problem) (mark : Mark) (activity : Activity) (since : Mark) :
    Parse α :=
  throw (.malformed problem mark (some (activity, since)))

def failBare {α : Type} (problem : Problem) (mark : Mark) : Parse α :=
  throw (.malformed problem mark none)

def closesBlockEntry : TokenKind → Bool
  | .blockEntry | .blockEnd => true
  | _ => false

def closesIndentlessEntry : TokenKind → Bool
  | .blockEntry | .key | .value | .blockEnd => true
  | _ => false

def closesMappingEntry : TokenKind → Bool
  | .key | .value | .blockEnd => true
  | _ => false

def closesFlowItem : TokenKind → Bool
  | .flowEntry | .flowSequenceEnd => true
  | _ => false

def closesFlowEntry : TokenKind → Bool
  | .flowEntry | .flowMappingEnd => true
  | _ => false

def closesDocument : TokenKind → Bool
  | .versionDirective _ _ | .tagDirective _ _ | .documentStart | .documentEnd | .streamEnd => true
  | _ => false

def isDirective : TokenKind → Bool
  | .versionDirective _ _ | .tagDirective _ _ => true
  | _ => false

def resolveTag (handle suffix : String) (since mark : Mark) : Parse String := do
  if handle = "" then return suffix
  match (← get).directives.lookup handle with
  | some tagPrefix => return tagPrefix ++ suffix
  | none => fail .undefinedTagHandle mark .node since

/-- Reads an anchor and a tag, in either order; gives also the place where the first one begins. -/
def readProperties : Parse (Properties × Mark) := do
  let first ← peek
  let since := first.start
  match first.kind with
  | .anchor name =>
    advance
    let second ← peek
    match second.kind with
    | .tag handle suffix =>
      advance
      -- a fault of the next token comes before one of the tag's handle
      let _ ← peek
      return (⟨some name, some (← resolveTag handle suffix since second.start)⟩, since)
    | _ => return (⟨some name, none⟩, since)
  | .tag handle suffix =>
    advance
    let second ← peek
    match second.kind with
    | .anchor name =>
      advance
      let _ ← peek
      return (⟨some name, some (← resolveTag handle suffix since since)⟩, since)
    | _ => return (⟨none, some (← resolveTag handle suffix since since)⟩, since)
  | _ => return (.none, since)

mutual
def readNode : Nat → Bool → Bool → Parse Unit
  | 0, _, _ => return ()
  | fuel + 1, block, indentless => do
    let first ← peek
    if let .alias name := first.kind then
      advance
      emit (.alias name) first.start
    else
      let (properties, since) ← readProperties
      let t ← peek
      match t.kind with
      | .scalar content style =>
        advance
        -- the lone `!` says no more than that the scalar has no tag
        let tag := properties.tag.filter (· ≠ "!")
        emit (.scalar { properties with tag := tag } content style) since
      | .flowSequenceStart =>
        emit (.sequenceStart properties) since
        advance
        readFlowItems fuel true t.start
      | .flowMappingStart =>
        emit (.mappingStart properties) since
        advance
        readFlowEntries fuel true t.start
      | kind =>
        if indentless && kind = .blockEntry then
          emit (.sequenceStart properties) since
          readIndentlessItems fuel
        else if block && kind = .blockSequenceStart then
          emit (.sequenceStart properties) since
          advance
          readBlockItems fuel t.start
        else if block && kind = .blockMappingStart then
          emit (.mappingStart properties) since
          advance
          readBlockEntries fuel t.start
        else if properties ≠ .none then
          emit (.scalar properties "" .plain) since
        else fail .missingContent t.start (if block then .blockNode else .flowNode) since

def readBlockItems : Nat → Mark → Parse Unit
  | 0, _ => return ()
  | fuel + 1, since => do
    let t ← peek
    match t.kind with
    | .blockEntry =>
      advance
      if closesBlockEntry (← peek).kind then emitEmpty t.stop else readNode fuel true false
      readBlockItems fuel since
    | .blockEnd =>
      advance
      emit .sequenceEnd t.start
    | _ => fail .missingDash t.start .blockCollection since

/-- Items at the indentation of the mapping around them; no token closes them. -/
def readIndentlessItems : Nat → Parse Unit
  | 0 => return ()
  | fuel + 1 => do
    let t ← peek
    match t.kind with
    | .blockEntry =>
      advance
      if closesIndentlessEntry (← peek).kind then emitEmpty t.stop else readNode fuel true false
      readIndentlessItems fuel
    | _ => emit .sequenceEnd t.start

def readBlockEntries : Nat → Mark → Parse Unit
  | 0, _ => return ()
  | fuel + 1, since => do
    let t ← peek
    match t.kind with
    | .key =>
      advance
      if closesMappingEntry (← peek).kind then emitEmpty t.stop else readNode fuel true true
      let v ← peek
      if v.kind = .value then
        advance
        if closesMappingEntry (← peek).kind then emitEmpty v.stop else readNode fuel true true
      else emitEmpty v.start
      readBlockEntries fuel since
    | .blockEnd =>
      advance
      emit .mappingEnd t.start
    | _ => fail .missingKey t.start .blockMapping since

/-- Reads the items of a flow sequence. An item may be a single entry, which is a mapping of its
own. -/
def readFlowItems : Nat → Bool → Mark → Parse Unit
  | 0, _, _ => return ()
  | fuel + 1, first, since => do
    let t ← peek
    if !first && t.kind ≠ .flowSequenceEnd then
      if t.kind = .flowEntry then advance
      else fail .missingCommaOrBracket t.start .flowSequence since
    let t ← peek
    match t.kind with
    | .flowSequenceEnd =>
      advance
      emit .sequenceEnd t.start
    | .key =>
      advance
      emit (.mappingStart .none) t.start
      let k ← peek
      if k.kind = .value || closesFlowItem k.kind then
        advance
        emitEmpty k.stop
      else readNode fuel false false
      let v ← peek
      if v.kind = .value then
        advance
        let w ← peek
        if closesFlowItem w.kind then emitEmpty w.start else readNode fuel false false
      else emitEmpty v.start
      emit .mappingEnd (← peek).start
      readFlowItems fuel false since
    | _ =>
      readNode fuel false false
      readFlowItems fuel false since

def readFlowEntries : Nat → Bool → Mark → Parse Unit
  | 0, _, _ => return ()
  | fuel + 1, first, since => do
    let t ← peek
    if !first && t.kind ≠ .flowMappingEnd then
      if t.kind = .flowEntry then advance
      else fail .missingCommaOrBrace t.start .flowMapping since
    let t ← peek
    match t.kind with
    | .flowMappingEnd =>
      advance
      emit .mappingEnd t.start
    | .key =>
      advance
      let k ← peek
      if k.kind = .value || closesFlowEntry k.kind then emitEmpty k.start
      else readNode fuel false false
      let v ← peek
      if v.kind = .value then
        advance
        let w ← peek
        if closesFlowEntry w.kind then emitEmpty w.start else readNode fuel false false
      else emitEmpty v.start
      readFlowEntries fuel false since
    | _ =>
      readNode fuel false false
      emitEmpty (← peek).start
      readFlowEntries fuel false since
end

def readDirectives : Nat → Bool → Parse Unit
  | 0, _ => return ()
  | fuel + 1, versioned => do
    let t ← peek
    match t.kind with
    | .versionDirective major minor =>
      if versioned then failBare .duplicateVersion t.start
      if major ≠ 1 || (minor ≠ 1 && minor ≠ 2) then failBare .incompatibleVersion t.start
      advance
      readDirectives fuel true
    | .tagDirective handle tagPrefix =>
      if ((← get).directives.lookup handle).isSome then failBare .duplicateTagDirective t.start
      modify fun p => { p with directives := p.directives ++ [(handle, tagPrefix)] }
      advance
      readDirectives fuel versioned
    | _ =>
      modify fun p =>
        { p with directives := p.directives ++ [("!", "!"), ("!!", "tag:yaml.org,2002:")] }

def skipDocumentEnds : Nat → Parse Unit
  | 0 => return ()
  | fuel + 1 => do
    if (← peek).kind = .documentEnd then
      advance
      skipDocumentEnds fuel

def readDocuments (nodeFuel : Nat) : Nat → Bool → Parse Unit
  | 0, _ => return ()
  | fuel + 1, first => do
    if !first then skipDocumentEnds nodeFuel
    let t ← peek
    if t.kind = .streamEnd then return ()
    modify fun p => { p with directives := [] }
    readDirectives nodeFuel false
    let s ← peek
    if s.kind = .documentStart then
      emit .documentStart t.start
      advance
      let content ← peek
      if closesDocument content.kind then emitEmpty content.start else readNode nodeFuel true false
    else if first && !isDirective t.kind then
      emit .documentStart t.start
      readNode nodeFuel true false
    else failBare .missingDocumentStart s.start
    let e ← peek
    if e.kind = .documentEnd then advance
    emit .documentEnd e.start
    readDocuments nodeFuel fuel false

end Event

/-- The events of a text, and the fault that ends them, if there is one. -/
def events (text : String) : List Event × Option Fault :=
  let (ts, fault) := tokens text
  let fuel := 2 * ts.length + 16
  let run := do
    let _ ← Event.peek
    Event.advance
    Event.readDocuments fuel fuel true
  let (outcome, p) := StateT.run (ExceptT.run run) ⟨ts, fault, [], []⟩
  (p.made.reverse, match outcome with | .ok _ => none | .error e => some e)

end Schemata.Yaml
