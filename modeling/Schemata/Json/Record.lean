import Schemata.Json.Reader
import Schemata.Record.Layout
import Schemata.Text.Visible

/-!
# Reading JSON records

A record is an object with its fields by name or a list with its fields by place. A value of the
wrong kind is reported behind a scalar and before the bracket of a collection, and a value that
nothing asks for is skimmed.
-/

namespace Schemata.Json

def describe : Tree → String
  | .null => "null"
  | .bool b => "boolean \x60" ++ (if b then "true" else "false") ++ "\x60"
  | .number (.int n) => "integer \x60" ++ toString n ++ "\x60"
  | .number (.float x) => "floating point \x60" ++ x.text .tree ++ "\x60"
  | .string s => "string " ++ visible s
  | .list _ => "sequence"
  | .mapping _ => "map"

/-- The failure of a value that was not asked for: `opening` is what was read from `c` on. -/
def failKind {α : Type} (c : Cursor) (opening : Opening) (after : Cursor) (wanted : String) :
    Except Error α :=
  match opening with
  | .scalar t => after.fail (.custom (wrongKind (describe t) wanted))
  | .list => c.fail (.custom (wrongKind "sequence" wanted))
  | .object => c.fail (.custom (wrongKind "map" wanted))

def ofChoice (names : List String) (name : String) (after : Cursor) :
    Except Error (Tree × Cursor) :=
  if names.contains name then .ok (.string name, after)
  else after.fail (.custom (unknownChoice names name))

/-- The end of a choice written as an object: a null value and the closing brace. -/
def readChoiceEnd (name : Tree) (c : Cursor) : Except Error (Tree × Cursor) := do
  let c := (← readColon c).skipSpace
  let (opening, after) ← readOpening .keep c
  match opening with
  | .scalar .null =>
    let c := after.skipSpace
    match c.peek? with
    | none => c.fail .endInObject
    | some x => if x = '\x7d' then return (name, c.next) else c.fail .expectedValue
  | _ => failKind c opening after "unit"

/-- Reads one of some names: a string, or an object with the name as its only key and null. -/
def readChoice (names : List String) (c : Cursor) : Except Error (Tree × Cursor) :=
  match c.peek? with
  | none => c.failPeek .endInValue
  | some x =>
    if x = '"' then do
      let (s, after) ← readString .keep c.next
      ofChoice names s after
    else if x = '\x7b' then do
      let c := c.next.skipSpace
      let (opening, after) ← readOpening .keep c
      match opening with
      | .scalar (.string s) =>
        let (name, after) ← ofChoice names s after
        readChoiceEnd name after
      | _ => failKind c opening after "variant identifier"
    else c.failPeek .expectedValue

def readField (kind : FieldKind) (c : Cursor) : Except Error (Tree × Cursor) :=
  let c := c.skipSpace
  match kind with
  | .choice names => readChoice names c
  | _ => do
    let (opening, after) ← readOpening .keep c
    match kind, opening with
    | .count, .scalar (.number (.int n)) =>
      if n < 0 then
        after.fail (.custom ("invalid value: " ++ describe (.int n) ++ ", expected usize"))
      else return (.int n, after)
    | _, .scalar t =>
      if kind.admits t then return (t, after) else failKind c opening after kind.wanted
    | _, _ => failKind c opening after kind.wanted

/-- The place where a repeated key is reported: what closes the object, if it follows, is taken. -/
def afterRepeatedKey (c : Cursor) : Cursor :=
  let c := c.skipSpace
  if c.peek? = some '\x7d' then c.next else c

/-- What follows the last field of a record written as a list. -/
def closeList (c : Cursor) : Except Error Cursor :=
  let c := c.skipSpace
  match c.peek? with
  | none => c.failPeek .endInList
  | some x =>
    if x = ']' then .ok c.next
    else if x = ',' then
      let c := c.next.skipSpace
      if c.peek? = some ']' then c.failPeek .trailingComma else c.failPeek .trailingCharacters
    else c.failPeek .trailingCharacters

section
variable {κ : Type} (layout : RecordLayout κ)
  (readValueOf : κ → Cursor → Except Error (Tree × Cursor))

/-- Reads the fields of an object behind those in `done`. -/
def readNamedFields : Nat → Cursor → Bool → Entries → Except Error (Tree × Cursor)
  | 0, c, _, _ => c.failPeek .endInObject
  | fuel + 1, c, first, done => do
    let (more, c) ← afterEntry c first .keep
    if more then
      let (key, c) ← readString .keep c
      match layout.fields.lookup key with
      | none =>
        let c ← readColon c
        let (_, c) ← readValue .skim (2 * c.rest.length + 2) 0 c
        readNamedFields fuel c false done
      | some kind =>
        if (done.get? key).isSome then
          (afterRepeatedKey c).fail (.custom (duplicateField key))
        else
          let (t, c) ← readValueOf kind (← readColon c)
          readNamedFields fuel c false (done ++ [(key, t)])
    else return (.mapping done, c)

def readPlacedFields : List (String × κ) → Cursor → Bool → Entries →
    Except Error (Tree × Cursor)
  | [], c, _, done => do return (.mapping done, ← closeList c)
  | (name, kind) :: rest, c, first, done => do
    let (more, c) ← afterItem c first .keep
    if more then
      let (t, c) ← readValueOf kind c
      readPlacedFields rest c false (done ++ [(name, t)])
    else return (.mapping done, c)

def readRecord (c : Cursor) : Except Error (Tree × Cursor) := do
  let c := c.skipSpace
  let (opening, after) ← readOpening .keep c
  match opening with
  | .object => readNamedFields layout readValueOf (after.rest.length + 1) after true []
  | .list => readPlacedFields readValueOf layout.fields after true []
  | .scalar _ => failKind c opening after ("struct " ++ layout.name)

end

def readSections (layout : RecordLayout (RecordLayout FieldKind)) (text : String) :
    Except Error Tree := do
  let (t, c) ← readRecord layout (fun inner => readRecord inner readField) (.ofText text)
  finish c
  return t

end Schemata.Json
