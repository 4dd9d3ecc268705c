import Schemata.Schema.Shape
import Schemata.Source

/-!
# Schema documents

A `Schema` is the tree of a schema file with the place that it was read from. The functions on it
read the keys that documentation shows, and take nothing about the tree for granted.
-/

namespace Schemata

/-- The directory of a schema file groups it with its siblings. -/
structure Category where
  name : String
deriving DecidableEq, Repr, Inhabited

namespace Category

def ofPath (p : FilePath) : Category :=
  ⟨(p.parent?.bind FilePath.fileName?).getD "uncategorized"⟩

/-- Hyphens separate the words of a directory name. -/
def title (c : Category) : String :=
  titleCase (String.ofList (c.name.toList.map fun x => if x = '-' then ' ' else x))

end Category

inductive ConstraintKind where
  | minimum
  | maximum
  | minLength
  | maxLength
  | pattern
deriving DecidableEq, Repr

namespace ConstraintKind

def all : List ConstraintKind := [minimum, maximum, minLength, maxLength, pattern]

def keyword : ConstraintKind → String
  | minimum => "minimum"
  | maximum => "maximum"
  | minLength => "minLength"
  | maxLength => "maxLength"
  | pattern => "pattern"

def label : ConstraintKind → String
  | minimum => "Minimum value"
  | maximum => "Maximum value"
  | minLength => "Minimum length"
  | maxLength => "Maximum length"
  | pattern => "Pattern"

end ConstraintKind

structure Constraint where
  kind : ConstraintKind
  value : Tree
deriving Repr

structure Property where
  name : String
  shape : Shape
  description : Option String
  required : Bool
deriving Repr

structure Schema where
  path : FilePath
  /-- The path that documentation shows. -/
  shownPath : FilePath
  root : Tree
  category : Category
deriving Repr

namespace Schema

/-- The name of the input directory followed by the path beneath it. -/
def shownPathOf (path inputRoot : FilePath) : FilePath :=
  match path.stripStart? inputRoot, inputRoot.fileName? with
  | some relative, some name =>
    if relative.same path then relative else FilePath.join ⟨name⟩ relative
  | some relative, none => relative
  | none, _ => path

def ofTree (path inputRoot : FilePath) (root : Tree) : Schema :=
  ⟨path, shownPathOf path inputRoot, root, .ofPath path⟩

def load (d : Disk) (path inputRoot : FilePath) : Except FileError Schema :=
  (Tree.load d path).map (ofTree path inputRoot)

def text? (s : Schema) (key : String) : Option String := (s.root.get? key).bind Tree.string?

def id? (s : Schema) : Option String := s.text? "$id"

def description? (s : Schema) : Option String := s.text? "description"

def unknownTitle : String := "Unknown Schema"

def title (s : Schema) : String := ((s.text? "title").or s.id?).getD unknownTitle

def required (s : Schema) : List String :=
  match s.root.get? "required" with
  | some (.list names) => names.filterMap Tree.string?
  | _ => []

def propertyOf (required : List String) (name : String) (definition : Tree) : Property where
  name := name
  shape := .ofTree definition
  description := (definition.get? "description").bind Tree.string?
  required := required.contains name

/-- The properties in source order; none at all without the key `properties`. -/
def properties? (s : Schema) : Option (List Property) :=
  (s.root.get? "properties").map fun t =>
    (t.entries?.getD []).map fun e => propertyOf s.required e.1 e.2

def examples? (s : Schema) : Option (List Tree) := (s.root.get? "examples").bind Tree.items?

def constraints (s : Schema) : List Constraint :=
  ConstraintKind.all.filterMap fun kind => (s.root.get? kind.keyword).map (Constraint.mk kind)

def stem (s : Schema) : String := s.path.stem?.getD ""

end Schema

end Schemata
