import Schemata.Tree.Basic

/-!
# Records with known fields

A `RecordLayout` names the fields that a record may have and what each of them holds. Reading a text
against a layout gives a tree with known fields only, each at most once and of its kind; entries
that the layout does not name are passed over. A `FieldKind` is the kind of a field that holds a
single value.
-/

namespace Schemata

inductive FieldKind where
  | text
  | path
  | optionalText
  | count
  | flag
  | choice (names : List String)
deriving DecidableEq, Repr

structure RecordLayout (κ : Type) where
  name : String
  fields : List (String × κ)

namespace FieldKind

def wanted : FieldKind → String
  | text | optionalText => "a string"
  | path => "path string"
  | count => "usize"
  | flag => "a boolean"
  | choice _ => "variant identifier"

def admits : FieldKind → Tree → Bool
  | text, .string _ | path, .string _ | optionalText, .string _ => true
  | optionalText, .null => true
  | count, .number (.int n) => 0 ≤ n && n ≤ Number.maxInt
  | flag, .bool _ => true
  | choice names, .string s => names.contains s
  | _, _ => false

end FieldKind

def alternatives (names : List String) : String :=
  let quoted := names.map fun n => "\x60" ++ n ++ "\x60"
  match quoted with
  | [a] => a
  | [a, b] => a ++ " or " ++ b
  | _ => "one of " ++ ", ".intercalate quoted

def unknownChoice (names : List String) (found : String) : String :=
  "unknown variant \x60" ++ found ++ "\x60, expected " ++ alternatives names

def duplicateField (name : String) : String := "duplicate field \x60" ++ name ++ "\x60"

def wrongKind (found wanted : String) : String :=
  "invalid type: " ++ found ++ ", expected " ++ wanted

end Schemata
