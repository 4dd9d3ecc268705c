import Schemata.Schema.Basic
import Schemata.Yaml.Block

/-!
# Pages of schema documents

A page is a Markdown text made of sections: the heading with the origin of the schema, its
description and identifier, the table of its properties, its examples as fenced blocks, and its
constraints. `Schema.page` puts them together; a section without content is left out.
-/

namespace Schemata

namespace Page

def heading (title category file : String) : String :=
  "# " ++ title ++ "\n\n**Category**: " ++ category ++ "\n\n**Schema File**: \x60" ++ file
    ++ "\x60\n\n"

def noDescription : String := "No description available."

def description (text : Option String) : String :=
  "## Description\n\n" ++ text.getD noDescription ++ "\n\n"

def identifier (id : String) : String := "**Schema ID**: \x60" ++ id ++ "\x60\n\n"

/-- A text on one line of a table: a bar does not end its cell. -/
def cell (text : String) : String :=
  String.ofList ((oneLine text).flatMap fun c => if c = '|' then ['\\', '|'] else [c])

def noPropertyDescription : String := "No description"

def row (p : Property) : String :=
  "| \x60" ++ cell p.name ++ "\x60 | " ++ cell p.shape.label ++ " | "
    ++ (if p.required then "✅" else "❌") ++ " | "
    ++ (p.description.map cell).getD noPropertyDescription ++ " |\n"

def tableHead : String :=
  "| Property | Type | Required | Description |\n|----------|------|----------|-------------|\n"

def properties (ps : List Property) : String :=
  "## Properties\n\n"
    ++ (if ps.isEmpty then "No properties defined." else tableHead ++ String.join (ps.map row))
    ++ "\n\n"

def exampleBlocks (number : Nat) : List Tree → String
  | [] => ""
  | t :: ts =>
    "### Example " ++ toString number ++ "\n\n\x60\x60\x60yaml\n" ++ Yaml.block t
      ++ "\x60\x60\x60\n\n" ++ exampleBlocks (number + 1) ts

def examples (ts : List Tree) : String :=
  if ts.isEmpty then "" else "## Examples\n\n" ++ exampleBlocks 1 ts

def constraintLine (c : Constraint) : String :=
  let value := c.value.plainText
  "- " ++ c.kind.label ++ ": "
    ++ (if c.kind = .pattern then "\x60" ++ value ++ "\x60" else value) ++ "\n"

def constraints (cs : List Constraint) : String :=
  if cs.isEmpty then ""
  else "## Constraints\n\n" ++ String.join (cs.map constraintLine) ++ "\n"

end Page

namespace Schema

def page (s : Schema) : String :=
  Page.heading s.title s.category.title s.shownPath.text
    ++ Page.description s.description?
    ++ (s.id?.map Page.identifier).getD ""
    ++ (s.properties?.map Page.properties).getD ""
    ++ (s.examples?.map Page.examples).getD ""
    ++ Page.constraints s.constraints

def pagePath (s : Schema) : FilePath := FilePath.join ⟨s.category.name⟩ ⟨s.stem ++ ".md"⟩

end Schema

end Schemata
