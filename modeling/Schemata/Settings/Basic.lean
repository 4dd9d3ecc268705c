import Schemata.Output.Format
import Schemata.Page.Site
import Schemata.Record.Layout
import Schemata.Schema.Discovery
import Schemata.Validation.Batch

/-!
# Settings

The settings of a run come in four sections. `Settings.ofTree` overlays the fields that a tree has
on the standard settings, and `Settings.tree` is the tree that has them all. A null identifier base
is no base, and an absent one is the standard base.
-/

namespace Schemata

structure PathSettings where
  ontologyDir : FilePath
  docsDir : FilePath
deriving DecidableEq, Repr

structure SchemaSettings where
  suffix : String
  idBase : Option String
  catalogFile : String
  catalogTitle : String
  summaryLength : Nat
deriving DecidableEq, Repr

structure OutputSettings where
  format : OutputFormat
  color : Bool
  progress : Bool
deriving DecidableEq, Repr

structure LoggingSettings where
  level : String
  format : String
deriving DecidableEq, Repr

structure Settings where
  paths : PathSettings
  schemas : SchemaSettings
  output : OutputSettings
  logging : LoggingSettings
deriving DecidableEq, Repr

def Tree.fieldD {α : Type} (t : Tree) (name : String) (read : Tree → Option α) (default : α) : α :=
  ((t.get? name).bind read).getD default

namespace Tree

def path? : Tree → Option FilePath
  | string s => some ⟨s⟩
  | _ => none

def optionalString? : Tree → Option (Option String)
  | string s => some (some s)
  | null => some none
  | _ => none

def nat? : Tree → Option Nat
  | number (.int n) => if n < 0 then none else some n.toNat
  | _ => none

def bool? : Tree → Option Bool
  | bool b => some b
  | _ => none

def orNull : Option String → Tree
  | some s => string s
  | none => null

end Tree

namespace PathSettings

def standard : PathSettings := ⟨⟨"ontology"⟩, ⟨"website/docs/specification"⟩⟩

def layout : RecordLayout FieldKind :=
  ⟨"PathConfig", [("ontology_dir", .path), ("docs_dir", .path)]⟩

def ofTree (t : Tree) : PathSettings where
  ontologyDir := t.fieldD "ontology_dir" Tree.path? standard.ontologyDir
  docsDir := t.fieldD "docs_dir" Tree.path? standard.docsDir

def tree (s : PathSettings) : Tree :=
  .mapping [("ontology_dir", .string s.ontologyDir.text), ("docs_dir", .string s.docsDir.text)]

end PathSettings

namespace SchemaSettings

/-- The identifiers of schemas begin so, unless the settings say otherwise. -/
def standardIdBase : String := "https://cfdl.dev/ontology/"

def standard : SchemaSettings where
  suffix := standardSuffix
  idBase := some standardIdBase
  catalogFile := SiteOptions.standard.catalogFile
  catalogTitle := CatalogOptions.standard.title
  summaryLength := CatalogOptions.standard.summaryLength

def layout : RecordLayout FieldKind :=
  ⟨"SchemaConfig", [("suffix", .text), ("id_base", .optionalText), ("catalog_file", .text),
    ("catalog_title", .text), ("summary_length", .count)]⟩

def ofTree (t : Tree) : SchemaSettings where
  suffix := t.fieldD "suffix" Tree.string? standard.suffix
  idBase := t.fieldD "id_base" Tree.optionalString? standard.idBase
  catalogFile := t.fieldD "catalog_file" Tree.string? standard.catalogFile
  catalogTitle := t.fieldD "catalog_title" Tree.string? standard.catalogTitle
  summaryLength := t.fieldD "summary_length" Tree.nat? standard.summaryLength

def tree (s : SchemaSettings) : Tree :=
  .mapping [("suffix", .string s.suffix), ("id_base", .orNull s.idBase),
    ("catalog_file", .string s.catalogFile), ("catalog_title", .string s.catalogTitle),
    ("summary_length", .int s.summaryLength)]

end SchemaSettings

namespace OutputSettings

def standard : OutputSettings := ⟨.human, true, true⟩

def layout : RecordLayout FieldKind :=
  ⟨"OutputConfig", [("format", .choice (OutputFormat.all.map OutputFormat.name)),
    ("color", .flag), ("progress", .flag)]⟩

def ofTree (t : Tree) : OutputSettings where
  format := t.fieldD "format" (fun f => f.string?.bind OutputFormat.ofName?) standard.format
  color := t.fieldD "color" Tree.bool? standard.color
  progress := t.fieldD "progress" Tree.bool? standard.progress

def tree (s : OutputSettings) : Tree :=
  .mapping [("format", .string s.format.name), ("color", .bool s.color),
    ("progress", .bool s.progress)]

end OutputSettings

namespace LoggingSettings

def standard : LoggingSettings := ⟨"warn", "compact"⟩

def layout : RecordLayout FieldKind :=
  ⟨"LoggingConfig", [("level", .text), ("format", .text)]⟩

def ofTree (t : Tree) : LoggingSettings where
  level := t.fieldD "level" Tree.string? standard.level
  format := t.fieldD "format" Tree.string? standard.format

def tree (s : LoggingSettings) : Tree :=
  .mapping [("level", .string s.level), ("format", .string s.format)]

end LoggingSettings

namespace Settings

def standard : Settings := ⟨.standard, .standard, .standard, .standard⟩

def layout : RecordLayout (RecordLayout FieldKind) :=
  ⟨"Config", [("paths", PathSettings.layout), ("schemas", SchemaSettings.layout),
    ("output", OutputSettings.layout), ("logging", LoggingSettings.layout)]⟩

def sectionOf (t : Tree) (name : String) : Tree := (t.get? name).getD (.mapping [])

def ofTree (t : Tree) : Settings where
  paths := .ofTree (sectionOf t "paths")
  schemas := .ofTree (sectionOf t "schemas")
  output := .ofTree (sectionOf t "output")
  logging := .ofTree (sectionOf t "logging")

def tree (s : Settings) : Tree :=
  .mapping [("paths", s.paths.tree), ("schemas", s.schemas.tree), ("output", s.output.tree),
    ("logging", s.logging.tree)]

def suffix (s : Settings) (given : Option String) : String := given.getD s.schemas.suffix

def validation (s : Settings) (root : FilePath) : ValidationConfig := ⟨root, s.schemas.idBase⟩

def site (s : Settings) : SiteOptions :=
  ⟨s.schemas.catalogFile, ⟨s.schemas.catalogTitle, s.schemas.summaryLength⟩⟩

end Settings

end Schemata
