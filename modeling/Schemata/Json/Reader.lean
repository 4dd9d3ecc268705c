import Schemata.Json.Lexeme
import Schemata.Tree.Basic

/-!
# Reading JSON into trees

`Tree.ofJson?` reads one value that fills the whole text. Of two entries with one key the later
value wins, in the earlier place. Nesting is limited to `maxDepth` collections.
-/

namespace Schemata.Json

def maxDepth : Nat := 128

def afterItem (c : Cursor) (first : Bool) (reading : Reading) : Except Error (Bool × Cursor) :=
  let c := c.skipSpace
  match c.peek? with
  | none => c.failPeek .endInList
  | some x =>
    if x = ']' then .ok (false, c.next)
    else if first then .ok (true, c)
    else if x = ',' then
      let c := c.next.skipSpace
      match c.peek? with
      | none => c.failPeek .endInValue
      | some y => if y = ']' && reading = .keep then c.failPeek .trailingComma else .ok (true, c)
    else c.failPeek .expectedListCommaOrEnd

/-- What follows an entry of an object: its end or the quote of the next key, which is taken. -/
def afterEntry (c : Cursor) (first : Bool) (reading : Reading) : Except Error (Bool × Cursor) :=
  let c := c.skipSpace
  match c.peek? with
  | none => c.failPeek .endInObject
  | some x =>
    if x = '\x7d' then .ok (false, c.next)
    else if first then
      if x = '"' then .ok (true, c.next) else c.failPeek .keyMustBeString
    else if x = ',' then
      let c := c.next.skipSpace
      match c.peek? with
      | none => if reading = .keep then c.failPeek .endInValue else c.failPeek .endInObject
      | some y =>
        if y = '"' then .ok (true, c.next)
        else if y = '\x7d' && reading = .keep then c.failPeek .trailingComma
        else c.failPeek .keyMustBeString
    else c.failPeek .expectedObjectCommaOrEnd

def readColon (c : Cursor) : Except Error Cursor :=
  let c := c.skipSpace
  match c.peek? with
  | none => c.failPeek .endInObject
  | some x => if x = ':' then .ok c.next else c.failPeek .expectedColon

/-- The beginning of a value: a scalar is read to its end, a collection to behind its bracket. -/
inductive Opening where
  | scalar (value : Tree)
  | list
  | object

def readOpening (reading : Reading) (c : Cursor) : Except Error (Opening × Cursor) :=
  match c.peek? with
  | none => c.failPeek .endInValue
  | some x =>
    if x = 'n' then do return (.scalar .null, ← readWord c.next ['u', 'l', 'l'])
    else if x = 't' then do return (.scalar (.bool true), ← readWord c.next ['r', 'u', 'e'])
    else if x = 'f' then do return (.scalar (.bool false), ← readWord c.next ['a', 'l', 's', 'e'])
    else if x = '-' then do
      let (n, c) ← readNumber reading c.next true
      return (.scalar (.number n), c)
    else if isDigit x then do
      let (n, c) ← readNumber reading c false
      return (.scalar (.number n), c)
    else if x = '"' then do
      let (s, c) ← readString reading c.next
      return (.scalar (.string s), c)
    else if x = '[' then .ok (.list, c.next)
    else if x = '\x7b' then .ok (.object, c.next)
    else c.failPeek .expectedValue

mutual
/-- Reads a value; `depth` collections may still be opened inside. -/
def readValue (reading : Reading) : Nat → Nat → Cursor → Except Error (Tree × Cursor)
  | 0, _, c => c.failPeek .expectedValue
  | fuel + 1, depth, c => do
    let c := c.skipSpace
    let (opening, after) ← readOpening reading c
    match opening with
    | .scalar t => return (t, after)
    | .list =>
      if depth ≤ 1 && reading = .keep then c.failPeek .tooDeep
      else
        let (ts, c) ← readItems reading fuel (depth - 1) after true
        return (.list ts, c)
    | .object =>
      if depth ≤ 1 && reading = .keep then c.failPeek .tooDeep
      else
        let (es, c) ← readEntries reading fuel (depth - 1) after true []
        return (.mapping es, c)

def readItems (reading : Reading) :
    Nat → Nat → Cursor → Bool → Except Error (List Tree × Cursor)
  | 0, _, c, _ => c.failPeek .endInList
  | fuel + 1, depth, c, first => do
    let (more, c) ← afterItem c first reading
    if more then
      let (t, c) ← readValue reading fuel depth c
      let (ts, c) ← readItems reading fuel depth c false
      return (t :: ts, c)
    else return ([], c)

def readEntries (reading : Reading) :
    Nat → Nat → Cursor → Bool → Entries → Except Error (Entries × Cursor)
  | 0, _, c, _, _ => c.failPeek .endInObject
  | fuel + 1, depth, c, first, read => do
    let (more, c) ← afterEntry c first reading
    if more then
      let (key, c) ← readString reading c
      let c ← readColon c
      let (t, c) ← readValue reading fuel depth c
      readEntries reading fuel depth c false (read.insert key t)
    else return (read, c)
end

def finish (c : Cursor) : Except Error Unit :=
  let c := c.skipSpace
  if c.rest.isEmpty then .ok () else c.failPeek .trailingCharacters

def read (text : String) : Except Error Tree := do
  let c := Cursor.ofText text
  let (t, c) ← readValue .keep (2 * c.rest.length + 2) maxDepth c
  finish c
  return t

end Schemata.Json
