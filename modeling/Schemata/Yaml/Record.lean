import Schemata.Record.Layout
import Schemata.Yaml.Document
import Schemata.Tree.Basic

/-!
# Reading YAML records

A record is a mapping with its fields by name; nothing at all stands for a record without fields. A
field of text takes the content of any scalar, however it is written, and a choice may be written as
a tag of its own. Values that nothing asks for are passed over without following their aliases.
-/

namespace Schemata.Yaml

def failKind {α : Type} (node : Node) (wanted : String) : Document.Read α :=
  match node.kind with
  | .scalar tag content style =>
    match Scalar.resolve tag content style with
    | .error m => throw (.unsuitable m.message none)
    | .ok s => throw (.unsuitable (wrongKind s.describe wanted) none)
  | .sequenceStart _ => throw (.unsuitable (wrongKind "sequence" wanted) none)
  | .mappingStart _ => throw (.unsuitable (wrongKind "map" wanted) none)
  | _ => throw .endOfStream

/-- Plain scalars, and block scalars with the tag of their kind, may be spelled values. -/
def isSpelled (kind : String) (tag : Option String) (style : ScalarStyle) : Bool :=
  style = .plain || (style = .literal && tag = some (Scalar.standardTag kind))

def count? (content : String) : Option Nat :=
  if content.startsWith "-" then none else (Scalar.intOfBits? 64 content).map Int.toNat

def Node.tag? (node : Node) : Option String :=
  match node.kind with
  | .scalar tag _ _ | .sequenceStart tag | .mappingStart tag => tag
  | _ => none

namespace Document

def throughAlias {α : Type} (d : Document) (read : Read α) : Read α := do
  match (← d.peek).kind with
  | .alias target =>
    let _ ← d.take
    d.follow target read
  | _ => read

/-- Passes over a node, with so many collections open. -/
def skip (d : Document) : Nat → Nat → Read Unit
  | 0, _ => throw .endOfStream
  | fuel + 1, opened => do
    match (← d.take).kind with
    | .sequenceStart _ | .mappingStart _ => d.skip fuel (opened + 1)
    | .sequenceEnd | .mappingEnd => if opened ≤ 1 then return () else d.skip fuel (opened - 1)
    | _ => if opened = 0 then return () else d.skip fuel opened

def readNode {α : Type} (d : Document) (path : Path) (read : Node → Read α) : Read α :=
  d.throughAlias do
    let node ← d.take
    locating node.mark path (read node)

def readText (d : Document) (wanted : String) (path : Path) : Read Tree :=
  d.readNode path fun node =>
    match node.kind with
    | .scalar _ content _ => return .string content
    | _ => failKind node wanted

/-- A plain scalar may be null, and one with the tag of null has to be; no other node is. -/
def readOptionalText (d : Document) (path : Path) : Read Tree :=
  d.throughAlias do
    match (← d.peek).kind with
    | .scalar tag content .plain =>
      if tag = some (Scalar.standardTag "null") then
        let _ ← d.take
        if Scalar.null? content then return .null
        else throw (.unsuitable (Scalar.Misspelling.message ⟨content, "null"⟩) none)
      else if tag = none && (content = "" || Scalar.null? content) then
        let _ ← d.take
        return .null
      else d.readText "a string" path
    | _ => d.readText "a string" path

def readCount (d : Document) (path : Path) : Read Tree :=
  d.readNode path fun node => do
    match node.kind with
    | .scalar tag content style =>
      if isSpelled "int" tag style then
        if let some n := count? content then return .int n
      failKind node "usize"
    | _ => failKind node "usize"

def readFlag (d : Document) (path : Path) : Read Tree :=
  d.readNode path fun node => do
    match node.kind with
    | .scalar tag content style =>
      if isSpelled "bool" tag style then
        if let some b := Scalar.bool? content then return .bool b
      failKind node "a boolean"
    | _ => failKind node "a boolean"

/-- A choice by its tag stands on a node without content. -/
def readTaggedChoice (name : String) (node : Node) : Read Tree :=
  match node.kind with
  | .scalar _ content style =>
    if style = .plain && (content = "" || Scalar.null? content) then return .string name
    else throw (.unsuitable (Scalar.Misspelling.message ⟨content, "null"⟩) none)
  | _ => failKind node "unit"

def readChoice (d : Document) (names : List String) (path : Path) : Read Tree :=
  d.readNode path fun node =>
    match localTag? node.tag? with
    | some name =>
      if names.contains name then readTaggedChoice name node
      else throw (.unsuitable (unknownChoice names name) none)
    | none =>
      match node.kind with
      | .scalar _ content _ =>
        if names.contains content then return .string content
        else throw (.unsuitable (unknownChoice names content) none)
      | _ => failKind node "a YAML tag starting with '!'"

def readField (d : Document) (kind : FieldKind) (path : Path) : Read Tree :=
  match kind with
  | .text | .path => d.readText kind.wanted path
  | .optionalText => d.readOptionalText path
  | .count => d.readCount path
  | .flag => d.readFlag path
  | .choice names => d.readChoice names path

section
variable {κ : Type} (d : Document) (layout : RecordLayout κ) (readValueOf : κ → Path → Read Tree)

def readFieldName (path : Path) : Read String :=
  d.readNode path fun node =>
    match node.kind with
    | .scalar _ content _ => return content
    | _ => failKind node "field identifier"

def readFields (path : Path) : Nat → Entries → Read Tree
  | 0, _ => throw .endOfStream
  | fuel + 1, done => do
    let node ← d.peek
    if node.kind = .mappingEnd then
      let _ ← d.take
      return .mapping done
    else
      let key ← readFieldName d path
      let fieldPath : Path :=
        match node.kind with
        | .scalar _ content _ => path.entry content
        | _ => path.entry "?"
      match layout.fields.lookup key with
      | none =>
        d.skip d.fuel 0
        readFields path fuel done
      | some kind =>
        if (done.get? key).isSome then throw (.unsuitable (duplicateField key) none)
        else
          let t ← readValueOf kind fieldPath
          readFields path fuel (done ++ [(key, t)])

def readRecord (path : Path) : Read Tree :=
  d.readNode path fun node =>
    match node.kind with
    | .mappingStart _ => readFields d layout readValueOf path (d.nodes.size + 1) []
    | .void | .scalar _ "" .plain => return .mapping []
    | _ => failKind node ("struct " ++ layout.name)

end

end Document

def readSections (layout : RecordLayout (RecordLayout FieldKind)) (text : String) :
    Except Error Tree :=
  let d := Document.ofText text
  d.readAll (d.readRecord layout (fun inner => d.readRecord inner d.readField) none)

end Schemata.Yaml
