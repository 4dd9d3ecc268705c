import Schemata.Tree.Basic

/-!
# Places in a tree

A `TreePath` leads from the root of a tree to one of its nodes, by keys and indices. A pointer is
the text of such a path: every step behind a slash, with `~1` for a slash and `~0` for a tilde. A
pointer does not tell a key of digits from an index; the tree that it is read in does.
-/

namespace Schemata

inductive Step where
  | key (k : String)
  | index (i : Nat)
deriving DecidableEq, Repr, Inhabited

namespace Step

def text : Step → String
  | key k => k
  | index i => toString i

def compare : Step → Step → Ordering
  | key a, key b => if a < b then .lt else if a = b then .eq else .gt
  | key _, index _ => .lt
  | index _, key _ => .gt
  | index a, index b => Ord.compare a b

end Step

abbrev TreePath := List Step

namespace TreePath

def text (p : TreePath) : String :=
  if p.isEmpty then "<root>" else ".".intercalate (p.map Step.text)

/-- Step by step; a path comes before what lies beneath it. -/
def compare : TreePath → TreePath → Ordering
  | [], [] => .eq
  | [], _ :: _ => .lt
  | _ :: _, [] => .gt
  | a :: as, b :: bs => (a.compare b).then (compare as bs)

end TreePath

/-- An index of a list: digits, with an optional plus sign, within 64 bits. -/
def index? (token : String) : Option Nat :=
  let digits :=
    match token.toList with
    | '+' :: rest => rest
    | cs => cs
  if digits.isEmpty || !digits.all Char.isDigit then none
  else
    let n := digits.foldl (fun n d => n * 10 + (d.toNat - '0'.toNat)) 0
    if n < Nat.pow 2 64 then some n else none

namespace Pointer

/-- Replaces the two characters `~` and `digit` by one. -/
def replaceTilde (digit image : Char) : List Char → List Char
  | '~' :: c :: rest =>
    if c = digit then image :: replaceTilde digit image rest
    else '~' :: replaceTilde digit image (c :: rest)
  | c :: rest => c :: replaceTilde digit image rest
  | [] => []

/-- The step that a token of a pointer stands for: slashes are restored before tildes. -/
def unescape (token : String) : String :=
  String.ofList (replaceTilde '0' '~' (replaceTilde '1' '/' token.toList))

def slashed : List Char → List Char → List (List Char)
  | [], current => [current.reverse]
  | c :: rest, current =>
    if c = '/' then current.reverse :: slashed rest [] else slashed rest (c :: current)

def pieces (text : String) : List String := (slashed text.toList []).map String.ofList

/-- The steps of a pointer; what stands before the first slash does not count. -/
def tokens (pointer : String) : List String := ((pieces pointer).drop 1).map unescape

def escapedChar (c : Char) : List Char :=
  if c = '~' then ['~', '0'] else if c = '/' then ['~', '1'] else [c]

def escape (step : String) : String := String.ofList (step.toList.flatMap escapedChar)

end Pointer

namespace TreePath

/-- Follows the steps of a pointer through a tree, as far as it goes, to find which of them are
indices. -/
def ofTokens : List String → Option Tree → TreePath
  | [], _ => []
  | token :: rest, some (.list items) =>
    match index? token with
    | some i => .index i :: ofTokens rest items[i]?
    | none => .key token :: ofTokens rest none
  | token :: rest, some (.mapping es) => .key token :: ofTokens rest (Entries.get? es token)
  | token :: rest, _ => .key token :: ofTokens rest none

def ofPointer (pointer : String) (t : Tree) : TreePath := ofTokens (Pointer.tokens pointer) (some t)

def pointer (p : TreePath) : String := String.join (p.map fun s => "/" ++ Pointer.escape s.text)

end TreePath

namespace Tree

/-- The node that a path leads to. -/
def at? : Tree → TreePath → Option Tree
  | t, [] => some t
  | mapping es, .key k :: rest => (Entries.get? es k).bind fun t => at? t rest
  | list items, .index i :: rest => items[i]?.bind fun t => at? t rest
  | _, _ :: _ => none

end Tree

inductive PointerError where
  | noSlash (pointer : String)
  | missingProperty (key : String)
  | invalidIndex (token : String)
  | insideScalar (token : String)
deriving DecidableEq, Repr

def PointerError.message : PointerError → String
  | noSlash p => "fragment '" ++ p ++ "' must start with '/'"
  | missingProperty k => "property '" ++ k ++ "' not found"
  | invalidIndex t => "invalid array index '" ++ t ++ "'"
  | insideScalar t => "cannot access '" ++ t ++ "' on a scalar"

namespace Pointer

def descend : Tree → List String → Except PointerError Tree
  | t, [] => .ok t
  | .mapping es, token :: rest =>
    match Entries.get? es token with
    | some t => descend t rest
    | none => .error (.missingProperty token)
  | .list items, token :: rest =>
    match (index? token).bind (items[·]?) with
    | some t => descend t rest
    | none => .error (.invalidIndex token)
  | _, token :: _ => .error (.insideScalar token)

def resolve (t : Tree) (pointer : String) : Except PointerError Tree :=
  if pointer = "" then .ok t
  else if pointer.startsWith "/" then descend t (tokens pointer)
  else .error (.noSlash pointer)

end Pointer

end Schemata
