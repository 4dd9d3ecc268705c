import Schemata.Tree.Text

/-!
# Breaches of a grammar

A `Breach` is a rule of a grammar that a value does not keep. Its message shows the value.
-/

namespace Schemata

inductive Breach where
  | nothingAllowed
  | wrongType (names : List String)
  | notAmong (options : List Tree)
  | notEqual (expected : Tree)
  | belowMinimum (limit : Number)
  | aboveMaximum (limit : Number)
  | notAbove (limit : Number)
  | notBelow (limit : Number)
  | notMultiple (factor : Number)
  | tooShort (length : Nat)
  | tooLong (length : Nat)
  | patternMissing (pattern : String)
  | badFormat (name : String)
  | badEncoding (name : String)
  | badMedia (name : String)
  | tooFewItems (count : Nat)
  | tooManyItems (count : Nat)
  | repeatedItems
  | noItemFits
  /-- Items behind so many are not expected. -/
  | extraItems (count : Nat)
  | missing (name : String)
  | extraEntries (names : List String)
  | tooFewEntries (count : Nat)
  | tooManyEntries (count : Nat)
  | noneOfAny
  | noneOfOne
  | severalOfOne
  | forbidden (schema : Tree)
deriving DecidableEq, Repr

namespace Breach

def plural (count : Nat) (one many : String) : String :=
  toString count ++ " " ++ if count = 1 then one else many

def wereUnexpected (count : Nat) : String :=
  if count = 1 then " was unexpected)" else " were unexpected)"

/-- Up to three options are named, of more only two. -/
def optionsText (options : List Tree) : String :=
  let texts := options.map Tree.compact
  if texts.length ≤ 3 then
    match texts.reverse with
    | [] => ""
    | [one] => one
    | last :: before => ", ".intercalate before.reverse ++ " or " ++ last
  else
    ", ".intercalate (texts.take 2) ++ " or " ++ toString (texts.length - 2)
      ++ " other candidates"

def typeText (names : List String) : String :=
  let quotedNames := ", ".intercalate (names.map fun n => "\"" ++ n ++ "\"")
  if names.length = 1 then "type " ++ quotedNames else "types " ++ quotedNames

/-- A factor in positional notation, without a fraction where it has none. -/
def factorText (n : Number) : String :=
  match (Number.float n.asFloat).fraction? with
  | some (a, b) => if a % b = 0 then toString (a / b) else n.asFloat.text .positional
  | none => n.text .tree

def message (b : Breach) (t : Tree) : String :=
  let v := t.compact
  match b with
  | nothingAllowed => "False schema does not allow " ++ v
  | wrongType names => v ++ " is not of " ++ typeText names
  | notAmong options => v ++ " is not one of " ++ optionsText options
  | notEqual expected => expected.compact ++ " was expected"
  | belowMinimum n => v ++ " is less than the minimum of " ++ n.text .tree
  | aboveMaximum n => v ++ " is greater than the maximum of " ++ n.text .tree
  | notAbove n => v ++ " is less than or equal to the minimum of " ++ n.text .tree
  | notBelow n => v ++ " is greater than or equal to the maximum of " ++ n.text .tree
  | notMultiple n => v ++ " is not a multiple of " ++ factorText n
  | tooShort n => v ++ " is shorter than " ++ plural n "character" "characters"
  | tooLong n => v ++ " is longer than " ++ plural n "character" "characters"
  | patternMissing p => v ++ " does not match \"" ++ p ++ "\""
  | badFormat name => v ++ " is not a \"" ++ name ++ "\""
  | badEncoding name => v ++ " is not compliant with \"" ++ name ++ "\" content encoding"
  | badMedia name => v ++ " is not compliant with \"" ++ name ++ "\" media type"
  | tooFewItems n => v ++ " has less than " ++ plural n "item" "items"
  | tooManyItems n => v ++ " has more than " ++ plural n "item" "items"
  | repeatedItems => v ++ " has non-unique elements"
  | noItemFits => "None of " ++ v ++ " are valid under the given schema"
  | extraItems n =>
    let extra := ((t.items?.getD []).drop n).map Tree.compact
    "Additional items are not allowed (" ++ ", ".intercalate extra ++ wereUnexpected extra.length
  | missing name => quoted name ++ " is a required property"
  | extraEntries names =>
    "Additional properties are not allowed ("
      ++ ", ".intercalate (names.map fun n => "'" ++ n ++ "'") ++ wereUnexpected names.length
  | tooFewEntries n => v ++ " has less than " ++ plural n "property" "properties"
  | tooManyEntries n => v ++ " has more than " ++ plural n "property" "properties"
  | noneOfAny => v ++ " is not valid under any of the schemas listed in the 'anyOf' keyword"
  | noneOfOne => v ++ " is not valid under any of the schemas listed in the 'oneOf' keyword"
  | severalOfOne =>
    v ++ " is valid under more than one of the schemas listed in the 'oneOf' keyword"
  | forbidden schema => schema.compact ++ " is not allowed for " ++ v

end Breach

end Schemata
