import Schemata.Yaml.Event
import Schemata.Yaml.Scalar

/-!
# The first document of a stream

A `Document` is the sequence of nodes of the first document, with aliases tied to the nodes that
they repeat, and the fault that cuts the sequence short, if there is one. Readers walk the sequence;
they meet the fault where the nodes end. `Place` names the spot of an error: its mark, and the path
of keys and indices that leads there.
-/

namespace Schemata.Yaml

/-- A path in a document; the root has no name of its own. -/
abbrev Path := Option String

def Path.text (p : Path) : String := p.getD "."

def Path.item (p : Path) (index : Nat) : Path := some (p.text ++ "[" ++ toString index ++ "]")

def Path.entry (p : Path) (key : String) : Path :=
  some (match p with | none => key | some q => q ++ "." ++ key)

structure Place where
  mark : Mark
  path : Path
deriving DecidableEq, Repr

inductive Error where
  | fault (f : Fault)
  | unknownAnchor (mark : Mark)
  | tooDeep (mark : Mark)
  | tooManyAliases
  | manyDocuments
  | endOfStream
  | unsuitable (text : String) (place : Option Place)
deriving DecidableEq, Repr

namespace Error

def at' (m : Mark) : String := if m.isStart then "" else " at " ++ m.text

def message : Error → String
  | fault f => f.message
  | unknownAnchor m => "unknown anchor" ++ at' m
  | tooDeep m => "recursion limit exceeded" ++ at' m
  | tooManyAliases => "repetition limit exceeded"
  | manyDocuments => "deserializing from YAML containing more than one document is not supported"
  | endOfStream => "EOF while parsing a value"
  | unsuitable text none => text
  | unsuitable text (some p) =>
    (match p.path with | none => "" | some path => path ++ ": ") ++ text ++ at' p.mark

def locate (e : Error) (mark : Mark) (path : Path) : Error :=
  match e with
  | unsuitable text none => unsuitable text (some ⟨mark, path⟩)
  | _ => e

end Error

inductive NodeKind where
  | alias (target : Nat)
  | scalar (tag : Option String) (content : String) (style : ScalarStyle)
  | sequenceStart (tag : Option String)
  | sequenceEnd
  | mappingStart (tag : Option String)
  | mappingEnd
  /-- The whole of an empty stream. -/
  | void
deriving DecidableEq, Repr, Inhabited

structure Node where
  kind : NodeKind
  mark : Mark
deriving DecidableEq, Repr, Inhabited

structure Document where
  nodes : Array Node
  /-- For every anchor number the place of its node. -/
  targets : List (Nat × Nat)
  error : Option Error
  hasSuccessor : Bool
deriving Repr, Inhabited

namespace Document

structure Building where
  nodes : Array Node
  /-- Anchor names with their numbers; a number is the count of names known before. -/
  anchors : List (String × Nat)
  targets : List (Nat × Nat)
deriving Inhabited

def Building.define (b : Building) (anchor : Option String) : Building :=
  match anchor with
  | none => b
  | some name =>
    let number := b.anchors.length
    { b with
      anchors := (name, number) :: b.anchors.filter (·.1 ≠ name)
      targets := (number, b.nodes.size) :: b.targets }

def Building.add (b : Building) (kind : NodeKind) (mark : Mark) : Building :=
  { b with nodes := b.nodes.push ⟨kind, mark⟩ }

/-- Takes events up to the end of the first document. -/
def build : List Event → Option Fault → Building → Document
  | [], fault, b =>
    match fault with
    | some f => ⟨b.nodes, b.targets, some (.fault f), false⟩
    | none =>
      let b := if b.nodes.isEmpty then b.add .void .start else b
      ⟨b.nodes, b.targets, none, false⟩
  | e :: rest, fault, b =>
    match e.kind with
    | .documentStart => build rest fault b
    | .documentEnd => ⟨b.nodes, b.targets, none, !rest.isEmpty || fault.isSome⟩
    | .alias name =>
      match b.anchors.lookup name with
      | some number => build rest fault (b.add (.alias number) e.mark)
      | none => ⟨b.nodes, b.targets, some (.unknownAnchor e.mark), false⟩
    | .scalar p content style =>
      build rest fault ((b.define p.anchor).add (.scalar p.tag content style) e.mark)
    | .sequenceStart p => build rest fault ((b.define p.anchor).add (.sequenceStart p.tag) e.mark)
    | .mappingStart p => build rest fault ((b.define p.anchor).add (.mappingStart p.tag) e.mark)
    | .sequenceEnd => build rest fault (b.add .sequenceEnd e.mark)
    | .mappingEnd => build rest fault (b.add .mappingEnd e.mark)

def ofText (text : String) : Document :=
  let (es, fault) := events text
  build es fault ⟨#[], [], []⟩

structure Position where
  next : Nat
  jumps : Nat
deriving Inhabited

abbrev Read := StateT Position (Except Error)

def peek (d : Document) : Read Node := do
  match d.nodes[(← get).next]? with
  | some n => return n
  | none => throw (d.error.getD .endOfStream)

def take (d : Document) : Read Node := do
  let n ← d.peek
  modify fun p => { p with next := p.next + 1 }
  return n

/-- Reads the node that an alias repeats and comes back. Aliases may be followed a hundred times as
often as there are nodes. -/
def follow {α : Type} (d : Document) (target : Nat) (read : Read α) : Read α := do
  let p ← get
  if p.jumps + 1 > d.nodes.size * 100 then throw .tooManyAliases
  set (Position.mk ((d.targets.lookup target).getD d.nodes.size) (p.jumps + 1))
  let x ← read
  modify fun q => { q with next := p.next }
  return x

def locating {α : Type} (mark : Mark) (path : Path) (read : Read α) : Read α :=
  fun p =>
    match read p with
    | .ok r => .ok r
    | .error e => .error (e.locate mark path)

def readAll {α : Type} (d : Document) (read : Read α) : Except Error α := do
  let (x, _) ← read ⟨0, 0⟩
  match d.error with
  | some e => throw e
  | none => if d.hasSuccessor then throw .manyDocuments else return x

/-- An upper bound for the steps on the way to any node: at most `maxDepth` collections deep, and
in each past all nodes. -/
def fuel (d : Document) : Nat := 300 * (d.nodes.size + 2)

end Document

def maxDepth : Nat := 128

/-- The name that a tag of the document's own gives its node. -/
def localTag? (tag : Option String) : Option String :=
  tag.bind fun t =>
    if t.startsWith "!" then some (if t = "!" then t else (t.drop 1).toString) else none

end Schemata.Yaml
