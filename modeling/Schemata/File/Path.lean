/-!
# File paths

A `FilePath` is a text that names a file. It is read as a sequence of components: repeated slashes
and inner `.` components do not count. Paths are compared by their components, and shown as they
were given.
-/

namespace Schemata

structure FilePath where
  text : String
deriving DecidableEq, Repr, Inhabited, Hashable

inductive PathPart where
  | root
  | here
  | up
  | name (s : String)
deriving DecidableEq, Repr, Inhabited

namespace PathPart

def text : PathPart → String
  | root => "/"
  | here => "."
  | up => ".."
  | name s => s

def rank : PathPart → Nat
  | root => 0
  | here => 1
  | up => 2
  | name _ => 3

def compare : PathPart → PathPart → Ordering
  | name s, name t => if s < t then .lt else if s = t then .eq else .gt
  | a, b => Ord.compare a.rank b.rank

end PathPart

namespace FilePath

def slashParts : List Char → List Char → List (List Char)
  | [], current => [current.reverse]
  | c :: rest, current =>
    if c = '/' then current.reverse :: slashParts rest [] else slashParts rest (c :: current)

/-- The pieces between the slashes of a text, empty ones included. -/
def pieces (text : String) : List String := (slashParts text.toList []).map String.ofList

def isAbsolute (p : FilePath) : Bool := p.text.startsWith "/"

def partOf? (piece : String) : Option PathPart :=
  if piece = "" || piece = "." then none
  else if piece = ".." then some .up
  else some (.name piece)

def parts (p : FilePath) : List PathPart :=
  let named := (pieces p.text).filterMap partOf?
  if p.isAbsolute then .root :: named
  else if (pieces p.text).head? = some "." then .here :: named
  else named

def same (p q : FilePath) : Bool := p.parts = q.parts

def comparePartLists : List PathPart → List PathPart → Ordering
  | [], [] => .eq
  | [], _ :: _ => .lt
  | _ :: _, [] => .gt
  | a :: as, b :: bs => (a.compare b).then (comparePartLists as bs)

def compare (p q : FilePath) : Ordering := comparePartLists p.parts q.parts

def fileName? (p : FilePath) : Option String :=
  match p.parts.getLast? with
  | some (.name s) => some s
  | _ => none

/-- Length of the part of a text that names where it starts: the root, or a leading `.`. -/
def startLength (cs : List Char) : Nat :=
  match cs with
  | '/' :: _ => 1
  | ['.'] => 1
  | '.' :: '/' :: _ => 1
  | _ => 0

/-- Drops slashes and `.` parts from the end of a text, given in reverse. -/
def trimEnd : Nat → List Char → List Char
  | 0, cs => cs
  | fuel + 1, cs =>
    let room := cs.length - startLength cs.reverse
    match cs with
    | '/' :: rest => if room ≥ 1 then trimEnd fuel rest else cs
    | '.' :: '/' :: rest => trimEnd fuel ('/' :: rest)
    | _ => cs

def trimmed (cs : List Char) : List Char :=
  (trimEnd (cs.length + 1) cs.reverse).reverse

/-- The path without its last part; a path without parts and the root have none. -/
def parent? (p : FilePath) : Option FilePath :=
  match p.parts.getLast? with
  | none | some .root => none
  | some _ =>
    let cs := trimmed p.text.toList
    let start := startLength cs
    let body := cs.drop start
    if body.isEmpty then some ⟨""⟩
    else
      let kept := (body.reverse.dropWhile (· ≠ '/')).reverse
      some ⟨String.ofList (trimmed (cs.take start ++ kept))⟩

/-- The path of `q` seen from the directory `p`. -/
def join (p q : FilePath) : FilePath :=
  if q.isAbsolute then q
  else if p.text = "" || p.text.endsWith "/" then ⟨p.text ++ q.text⟩
  else ⟨p.text ++ "/" ++ q.text⟩

def trimStart : List Char → List Char
  | '/' :: rest => trimStart rest
  | '.' :: '/' :: rest => trimStart rest
  | ['.'] => []
  | cs => cs

/-- Drops the first `n` parts of a text. -/
def dropParts : Nat → List Char → List Char
  | 0, cs => cs
  | n + 1, cs => dropParts n ((trimStart cs).dropWhile (· ≠ '/'))

def stripStart? (p start : FilePath) : Option FilePath :=
  let ps := p.parts
  let qs := start.parts
  if qs.isPrefixOf ps then
    if qs.isEmpty then some ⟨String.ofList (trimmed p.text.toList)⟩
    else
      let cs := p.text.toList
      let lead := startLength cs
      let body := trimStart (dropParts (qs.length - lead) (cs.drop lead))
      some ⟨String.ofList (trimmed body)⟩
  else none

/-- A file name cut at its last point; a point at the beginning does not cut. -/
def splitName (name : String) : String × Option String :=
  if name = ".." then (name, none)
  else
    let back := name.toList.reverse
    let ext := back.takeWhile (· ≠ '.')
    match back.drop ext.length with
    | [] => (name, none)
    | _ :: stem =>
      if stem.isEmpty then (name, none)
      else (String.ofList stem.reverse, some (String.ofList ext.reverse))

def stem? (p : FilePath) : Option String := p.fileName?.map fun n => (splitName n).1

def extension? (p : FilePath) : Option String := p.fileName?.bind fun n => (splitName n).2

end FilePath

end Schemata
