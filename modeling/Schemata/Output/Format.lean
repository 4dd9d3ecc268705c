import Schemata.Tree.Text
import Schemata.Yaml.Block

/-!
# Output formats

One format is for people and three are for other programs.
-/

namespace Schemata

inductive OutputFormat where
  | human
  | json
  | yaml
  | jsonPretty
deriving DecidableEq, Repr, Inhabited

namespace OutputFormat

def name : OutputFormat → String
  | human => "human"
  | json => "json"
  | yaml => "yaml"
  | jsonPretty => "json-pretty"

def all : List OutputFormat := [human, json, yaml, jsonPretty]

def ofName? (name : String) : Option OutputFormat := all.find? (·.name = name)

theorem ofName?_name (f : OutputFormat) : ofName? f.name = some f := by
  cases f <;> decide

def isHuman (f : OutputFormat) : Bool := f = human

def render : OutputFormat → Tree → String
  | json, t => t.compact
  | yaml, t => Yaml.block t
  | human, t | jsonPretty, t => t.indented

end OutputFormat

end Schemata
