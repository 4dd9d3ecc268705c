import Schemata.Text.Title
import Schemata.Tree.Text

/-!
# Shapes of properties

The definition of a property says what its values look like: by `type`, or else by `enum`, or else
by `$ref`. `Shape.ofTree` reads a definition, and `Shape.label` names the shape for readers.
-/

namespace Schemata

inductive Shape where
  | primitive (name : String)
  | array (items : Option Shape)
  | object
  | union (names : List String)
  | enumeration (values : List Tree)
  | reference (raw : String)
  | unknown
deriving Repr, Inhabited

/-- Text of a value as readers see it: strings stand without quotes. -/
def Tree.plainText : Tree → String
  | .string s => s
  | t => t.compact

namespace Shape

def typeNames (names : List Tree) : List String := names.filterMap Tree.string?

/-- What `enum` and `$ref` say about a definition without a usable `type`. -/
def withoutType (es : Entries) : Shape :=
  match Entries.get? es "enum" with
  | some (.list (v :: vs)) => enumeration (v :: vs)
  | _ =>
    match Entries.get? es "$ref" with
    | some (.string raw) => reference raw
    | _ => unknown

mutual
def ofTree : Tree → Shape
  | .mapping es =>
    match Entries.get? es "type" with
    | some (.string "array") => array (ofItems es)
    | some (.string "object") => object
    | some (.string name) => primitive name
    | some (.list names) => union (typeNames names)
    | _ => withoutType es
  | _ => unknown
termination_by structural t => t

def ofItems : List (String × Tree) → Option Shape
  | [] => none
  | (k, t) :: es =>
    if k = "items" then
      match t.entries? with
      | some _ => some (ofTree t)
      | none => none
    else ofItems es
termination_by structural es => es
end

/-- A reference is shown without the beginning that names a place in the document itself. -/
def shownReference (raw : String) : String :=
  match raw.toList with
  | '#' :: '/' :: rest => String.ofList rest
  | _ => raw

def label : Shape → String
  | primitive name => capitalized name
  | array (some items) => "Array of " ++ items.label
  | array none => "Array"
  | object => "Object"
  | union names => " or ".intercalate (names.map capitalized)
  | enumeration values => "Enum: " ++ ", ".intercalate (values.map Tree.plainText)
  | reference raw => "Reference: " ++ shownReference raw
  | unknown => "Unknown"

end Shape

end Schemata
