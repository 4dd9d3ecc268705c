import Schemata.Yaml.Document
import Schemata.Tree.Basic

/-!
# Reading YAML into trees

A YAML value is richer than a tree: keys are values of any kind and tags of the document's own are
kept. `Value.toTree` makes the tree: a tagged value becomes a mapping with one entry, scalar keys
become their texts, and infinite and undefined floats become null.
-/

namespace Schemata.Yaml

inductive Value where
  | scalar (s : Scalar)
  | list (items : List Value)
  | mapping (entries : List (Value × Value))
  | tagged (tag : String) (value : Value)
deriving Repr, Inhabited

namespace Value

def sameScalar : Scalar → Scalar → Bool
  | .float x, .float y =>
    (x.isNaN && y.isNaN) || (x.isZero && y.isZero) || (!x.isNaN && x = y)
  | a, b => a = b

def stripBang (tag : String) : String :=
  if tag.startsWith "!" && tag ≠ "!" then (tag.drop 1).toString else tag

mutual
/-- Equality of keys: the order of entries does not matter, and an undefined float equals itself. -/
def same : Value → Value → Bool
  | scalar a, scalar b => sameScalar a b
  | list a, list b => sameItems a b
  | mapping a, mapping b => a.length = b.length && sameEntries a b
  | tagged s a, tagged t b => stripBang s = stripBang t && same a b
  | _, _ => false
termination_by structural a => a

def sameItems : List Value → List Value → Bool
  | [], [] => true
  | a :: as, b :: bs => same a b && sameItems as bs
  | _, _ => false
termination_by structural as => as

def sameEntries : List (Value × Value) → List (Value × Value) → Bool
  | [], _ => true
  | (k, v) :: es, others => others.any (fun o => same k o.1 && same v o.2) && sameEntries es others
termination_by structural es => es
end

def keyText : Value → String
  | scalar .null => "with null key"
  | scalar (.bool b) => "with key \x60" ++ (if b then "true" else "false") ++ "\x60"
  | scalar (.int n) | scalar (.wide n) => "with key " ++ toString n
  | scalar (.float x) => "with key " ++ x.text .block
  | scalar (.string s) => "with key " ++ visible s
  | _ => "in YAML map"

open Document

def ofScalar (tag : Option String) (content : String) (style : ScalarStyle) :
    Except Error Value :=
  match Scalar.resolve tag content style with
  | .error m => .error (.unsuitable m.message none)
  | .ok (.wide n) =>
    .error (.unsuitable
      ("invalid type: " ++ (Scalar.wide n).describe ++ ", expected any YAML value") none)
  | .ok s => .ok (scalar s)

mutual
/-- Reads the next node. `depth` collections may still be opened; a node whose own tag is already
taken off is read as if it had none. -/
def read (d : Document) : Nat → Nat → Path → Bool → Read Value
  | 0, _, _, _ => throw .endOfStream
  | fuel + 1, depth, path, tagTaken => do
    let node ← d.peek
    let tag? (tag : Option String) : Option String := if tagTaken then none else localTag? tag
    locating node.mark path do
      match node.kind with
      | .alias target =>
        let _ ← d.take
        d.follow target (read d fuel depth path false)
      | .scalar tag content style =>
        match tag? tag with
        | some name => return tagged name (← read d fuel depth path true)
        | none =>
          let _ ← d.take
          ofScalar (if tagTaken then none else tag) content style
      | .sequenceStart tag =>
        match tag? tag with
        | some name => return tagged name (← read d fuel depth path true)
        | none =>
          let _ ← d.take
          if depth = 0 then throw (.tooDeep node.mark)
          else return list (← readItems d fuel (depth - 1) path 0)
      | .mappingStart tag =>
        match tag? tag with
        | some name => return tagged name (← read d fuel depth path true)
        | none =>
          let _ ← d.take
          if depth = 0 then throw (.tooDeep node.mark)
          else return mapping (← readEntries d fuel (depth - 1) path [])
      | .void =>
        let _ ← d.take
        return scalar .null
      | .sequenceEnd | .mappingEnd => throw .endOfStream

def readItems (d : Document) : Nat → Nat → Path → Nat → Read (List Value)
  | 0, _, _, _ => throw .endOfStream
  | fuel + 1, depth, path, index => do
    if (← d.peek).kind = .sequenceEnd then
      let _ ← d.take
      return []
    else
      let v ← read d fuel depth (path.item index) false
      return v :: (← readItems d fuel depth path (index + 1))

/-- Reads the entries of a mapping behind those in `done`, last one first. -/
def readEntries (d : Document) : Nat → Nat → Path → List (Value × Value) →
    Read (List (Value × Value))
  | 0, _, _, _ => throw .endOfStream
  | fuel + 1, depth, path, done => do
    let node ← d.peek
    if node.kind = .mappingEnd then
      let _ ← d.take
      return done.reverse
    else
      let key ← read d fuel depth path false
      if done.any (same key ·.1) then
        throw (.unsuitable ("duplicate entry " ++ key.keyText) none)
      let entryPath : Path :=
        match node.kind with
        | .scalar _ content _ => path.entry content
        | _ => path.entry "?"
      let value ← read d fuel depth entryPath false
      readEntries d fuel depth path ((key, value) :: done)
end

def ofDocument (d : Document) : Except Error Value :=
  d.readAll (read d d.fuel maxDepth none false)

inductive KeyError where
  | notScalar
  | notFinite
deriving DecidableEq, Repr

def KeyError.message : KeyError → String
  | notScalar => "key must be a string"
  | notFinite => "float key must be finite (got NaN or +/-inf)"

def key? : Value → Except KeyError String
  | scalar (.string s) => .ok s
  | scalar (.bool b) => .ok (if b then "true" else "false")
  | scalar (.int n) | scalar (.wide n) => .ok (toString n)
  | scalar (.float x) => if x.isFinite then .ok (x.text .tree) else .error .notFinite
  | _ => .error .notScalar

def scalarTree : Scalar → Tree
  | .null => .null
  | .bool b => .bool b
  | .int n | .wide n => .int n
  | .float x => if x.isFinite then .number (.float x) else .null
  | .string s => .string s

mutual
def toTree : Value → Except KeyError Tree
  | scalar s => .ok (scalarTree s)
  | list items => do return .list (← toItems items)
  | mapping entries => do return .mapping (← toEntries entries [])
  | tagged tag value => do return .mapping [("!" ++ stripBang tag, ← toTree value)]
termination_by structural v => v

def toItems : List Value → Except KeyError (List Tree)
  | [] => .ok []
  | v :: vs => do
    let t ← toTree v
    return t :: (← toItems vs)
termination_by structural vs => vs

def toEntries : List (Value × Value) → Entries → Except KeyError Entries
  | [], done => .ok done
  | (k, v) :: es, done => do
    let key ← key? k
    toEntries es (done.insert key (← toTree v))
termination_by structural es => es
end

end Value

inductive ReadError where
  | yaml (e : Error)
  | key (e : Value.KeyError)
deriving DecidableEq, Repr

def ReadError.message : ReadError → String
  | yaml e => e.message
  | key e => e.message

def readTree (text : String) : Except ReadError Tree :=
  match Value.ofDocument (Document.ofText text) with
  | .error e => .error (.yaml e)
  | .ok v =>
    match v.toTree with
    | .error e => .error (.key e)
    | .ok t => .ok t

end Schemata.Yaml
