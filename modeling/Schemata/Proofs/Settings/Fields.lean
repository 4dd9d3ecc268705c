import Schemata.Proofs.Json.Records
import Schemata.Proofs.Settings.Search
import Schemata.Proofs.Tree.Data

/-!
# Settings that leave fields out

Settings are determined by the values of their fields. A file that leaves fields out, one by one or
with their sections, sets the others, and the standard settings fill in for those that it leaves
out. A null that is written down is a value like any other. What is left of a tree of settings can
be written as JSON and is read back as it was.
-/

namespace Schemata

theorem Tree.nat?_natCast (n : Nat) : Tree.nat? (.int n) = some n := by
  rw [int, nat?, if_neg (Int.not_lt.2 (Int.natCast_nonneg n)), Int.toNat_natCast]

inductive SettingsField where
  | ontologyDir
  | docsDir
  | suffix
  | idBase
  | catalogFile
  | catalogTitle
  | summaryLength
  | outputFormat
  | color
  | progress
  | logLevel
  | logFormat
deriving DecidableEq

namespace SettingsField

def place : SettingsField → String × String
  | ontologyDir => ("paths", "ontology_dir")
  | docsDir => ("paths", "docs_dir")
  | suffix => ("schemas", "suffix")
  | idBase => ("schemas", "id_base")
  | catalogFile => ("schemas", "catalog_file")
  | catalogTitle => ("schemas", "catalog_title")
  | summaryLength => ("schemas", "summary_length")
  | outputFormat => ("output", "format")
  | color => ("output", "color")
  | progress => ("output", "progress")
  | logLevel => ("logging", "level")
  | logFormat => ("logging", "format")

def Value : SettingsField → Type
  | ontologyDir | docsDir => FilePath
  | suffix | catalogFile | catalogTitle | logLevel | logFormat => String
  | idBase => Option String
  | summaryLength => Nat
  | outputFormat => OutputFormat
  | color | progress => Bool

def get : (f : SettingsField) → Settings → f.Value
  | ontologyDir, s => s.paths.ontologyDir
  | docsDir, s => s.paths.docsDir
  | suffix, s => s.schemas.suffix
  | idBase, s => s.schemas.idBase
  | catalogFile, s => s.schemas.catalogFile
  | catalogTitle, s => s.schemas.catalogTitle
  | summaryLength, s => s.schemas.summaryLength
  | outputFormat, s => s.output.format
  | color, s => s.output.color
  | progress, s => s.output.progress
  | logLevel, s => s.logging.level
  | logFormat, s => s.logging.format

def read : (f : SettingsField) → Tree → Option f.Value
  | ontologyDir => Tree.path?
  | docsDir => Tree.path?
  | suffix => Tree.string?
  | idBase => Tree.optionalString?
  | catalogFile => Tree.string?
  | catalogTitle => Tree.string?
  | summaryLength => Tree.nat?
  | outputFormat => fun t => t.string?.bind OutputFormat.ofName?
  | color => Tree.bool?
  | progress => Tree.bool?
  | logLevel => Tree.string?
  | logFormat => Tree.string?

def write : (f : SettingsField) → f.Value → Tree
  | ontologyDir, p => .string p.text
  | docsDir, p => .string p.text
  | suffix, s => .string s
  | idBase, base => .orNull base
  | catalogFile, s => .string s
  | catalogTitle, s => .string s
  | summaryLength, (n : Nat) => .int n
  | outputFormat, f => .string f.name
  | color, b => .bool b
  | progress, b => .bool b
  | logLevel, s => .string s
  | logFormat, s => .string s

theorem read_write (f : SettingsField) (v : f.Value) : f.read (f.write v) = some v := by
  cases f with
  | idBase => cases v <;> rfl
  | summaryLength => exact Tree.nat?_natCast v
  | outputFormat => exact OutputFormat.ofName?_name v
  | _ => rfl

end SettingsField

/-- What a tree of settings leaves out: whole sections, and fields of the others. -/
structure Omission where
  sections : String → Bool
  fields : String → String → Bool

namespace Tree

/-- The mapping without the entries under some keys. -/
def without (out : String → Bool) : Tree → Tree
  | mapping es => mapping (es.filter fun e => !out e.1)
  | t => t

theorem get?_without (out : String → Bool) (t : Tree) (key : String) :
    (t.without out).get? key = if out key then none else t.get? key := by
  cases t with
  | mapping es =>
    change Entries.get? (es.filter fun e => !out e.1) key =
      if out key then none else Entries.get? es key
    induction es with
    | nil => exact (ite_self _).symm
    | cons e es ih =>
      rw [List.filter_cons, Reorders.get?_cons]
      cases hout : out e.1 with
      | true =>
        rw [Bool.not_true, if_neg Bool.false_ne_true, ih]
        by_cases he : key = e.1
        · rw [he, hout, if_pos rfl, if_pos rfl]
        · rw [if_neg he]
      | false =>
        rw [Bool.not_false, if_pos rfl, Reorders.get?_cons, ih]
        by_cases he : key = e.1
        · rw [if_pos he, if_pos he, he, hout, if_neg Bool.false_ne_true]
        · rw [if_neg he, if_neg he]
  | _ => exact (ite_self _).symm

theorem conforms_without {κ : Type} {layout : RecordLayout κ} {fits : κ → Tree → Prop} {t : Tree}
    (h : layout.Conforms fits t) (out : String → Bool) : layout.Conforms fits (t.without out) := by
  obtain ⟨es, rfl, hkeys, hfits⟩ := h
  refine ⟨_, rfl, hkeys.sublist (List.filter_sublist.map _), fun e he => ?_⟩
  exact hfits e (List.mem_filter.1 he).1

end Tree

namespace Omission

variable (o : Omission)

def rest : Tree → Tree
  | .mapping es =>
    .mapping ((es.filter fun e => !o.sections e.1).map fun e => (e.1, e.2.without (o.fields e.1)))
  | t => t

def covers (f : SettingsField) : Bool := o.sections f.place.1 || o.fields f.place.1 f.place.2

theorem get?_rest (t : Tree) (key : String) :
    (o.rest t).get? key =
      if o.sections key then none else (t.get? key).map (Tree.without (o.fields key)) := by
  cases t with
  | mapping es =>
    have hmap := Tree.get?_map (fun k u => u.without (o.fields k))
      (es.filter fun e => !o.sections e.1) key
    have hfilter := Tree.get?_without o.sections (.mapping es) key
    refine hmap.trans ((congrArg (Option.map _) hfilter).trans ?_)
    split <;> rfl
  | _ => exact (ite_self _).symm

theorem conforms_rest {κ : Type} {layout : RecordLayout (RecordLayout κ)} {fits : κ → Tree → Prop}
    {t : Tree} (h : layout.Conforms (fun inner => inner.Conforms fits) t) :
    layout.Conforms (fun inner => inner.Conforms fits) (o.rest t) := by
  obtain ⟨es, rfl, hkeys, hfits⟩ := h
  refine ⟨_, rfl, ?_, fun e he => ?_⟩
  · rw [Entries.keys, List.map_map]
    exact hkeys.sublist (List.filter_sublist.map _)
  · obtain ⟨f, hf, rfl⟩ := List.mem_map.1 he
    obtain ⟨inner, hinner, hfit⟩ := hfits f (List.mem_filter.1 hf).1
    exact ⟨inner, hinner, Tree.conforms_without hfit _⟩

end Omission

namespace Settings

variable {s r : Settings} {d : Disk} {p : FilePath} {text : String}

theorem ext_fields (h : ∀ f : SettingsField, f.get s = f.get r) : s = r := by
  obtain ⟨⟨_, _⟩, ⟨_, _, _, _, _⟩, ⟨_, _, _⟩, ⟨_, _⟩⟩ := s
  obtain ⟨⟨_, _⟩, ⟨_, _, _, _, _⟩, ⟨_, _, _⟩, ⟨_, _⟩⟩ := r
  cases h .ontologyDir
  cases h .docsDir
  cases h .suffix
  cases h .idBase
  cases h .catalogFile
  cases h .catalogTitle
  cases h .summaryLength
  cases h .outputFormat
  cases h .color
  cases h .progress
  cases h .logLevel
  cases h .logFormat
  rfl

theorem get_ofTree (f : SettingsField) (t : Tree) :
    f.get (ofTree t) =
      (((sectionOf t f.place.1).get? f.place.2).bind f.read).getD (f.get standard) := by
  cases f <;> rfl

theorem get?_tree (f : SettingsField) (s : Settings) :
    ∃ u, s.tree.get? f.place.1 = some u ∧ u.get? f.place.2 = some (f.write (f.get s)) := by
  cases f <;> exact ⟨_, rfl, rfl⟩

/-- The fields that are left keep their values, and the others have the standard ones. -/
theorem get_ofTree_rest (o : Omission) (s : Settings) (f : SettingsField) :
    f.get (ofTree (o.rest s.tree)) = if o.covers f then f.get standard else f.get s := by
  obtain ⟨u, hu, hf⟩ := get?_tree f s
  rw [get_ofTree, sectionOf, o.get?_rest, hu, Omission.covers]
  cases hsection : o.sections f.place.1 with
  | true => rfl
  | false =>
    rw [if_neg Bool.false_ne_true, Option.map_some, Option.getD_some, Tree.get?_without, hf,
      Bool.false_or]
    split
    · rfl
    · rw [Option.bind_some, f.read_write, Option.getD_some]

theorem usable_ofTree_rest (hs : s.Usable) (o : Omission) : (ofTree (o.rest s.tree)).Usable := by
  have hsuffix := get_ofTree_rest o s .suffix
  have hcatalog := get_ofTree_rest o s .catalogFile
  constructor
  · rintro hempty
    rw [SettingsField.get, hempty] at hsuffix
    split at hsuffix
    · exact usable_standard.suffix hsuffix.symm
    · exact hs.suffix hsuffix.symm
  · rintro hempty
    rw [SettingsField.get, hempty] at hcatalog
    split at hcatalog
    · exact usable_standard.catalogFile hcatalog.symm
    · exact hs.catalogFile hcatalog.symm

theorem conforms_tree (hn : s.schemas.summaryLength ≤ Number.maxInt) :
    layout.Conforms (fun inner => inner.Conforms fun kind t => kind.admits t) s.tree := by
  have hpaths : PathSettings.layout.Conforms (fun kind t => kind.admits t) s.paths.tree := by
    refine ⟨_, rfl, show (PathSettings.layout.fields.map (·.1)).Nodup by decide, ?_⟩
    simp only [List.forall_mem_cons]
    exact ⟨⟨.path, rfl, rfl⟩, ⟨.path, rfl, rfl⟩, List.forall_mem_nil _⟩
  have hschemas : SchemaSettings.layout.Conforms (fun kind t => kind.admits t) s.schemas.tree := by
    refine ⟨_, rfl, show (SchemaSettings.layout.fields.map (·.1)).Nodup by decide, ?_⟩
    have hbase : FieldKind.optionalText.admits (Tree.orNull s.schemas.idBase) := by
      cases s.schemas.idBase <;> rfl
    have hcount : FieldKind.count.admits (.int s.schemas.summaryLength) := by
      simp only [Tree.int, FieldKind.admits, Bool.and_eq_true, decide_eq_true_eq]
      exact ⟨Int.natCast_nonneg _, hn⟩
    simp only [List.forall_mem_cons]
    exact ⟨⟨.text, rfl, rfl⟩, ⟨.optionalText, rfl, hbase⟩, ⟨.text, rfl, rfl⟩, ⟨.text, rfl, rfl⟩,
      ⟨.count, rfl, hcount⟩, List.forall_mem_nil _⟩
  have houtput : OutputSettings.layout.Conforms (fun kind t => kind.admits t) s.output.tree := by
    refine ⟨_, rfl, show (OutputSettings.layout.fields.map (·.1)).Nodup by decide, ?_⟩
    have hformat : (FieldKind.choice (OutputFormat.all.map OutputFormat.name)).admits
        (.string s.output.format.name) := by
      cases s.output.format <;> rfl
    simp only [List.forall_mem_cons]
    exact ⟨⟨_, rfl, hformat⟩, ⟨.flag, rfl, rfl⟩, ⟨.flag, rfl, rfl⟩, List.forall_mem_nil _⟩
  have hlogging : LoggingSettings.layout.Conforms (fun kind t => kind.admits t) s.logging.tree := by
    refine ⟨_, rfl, show (LoggingSettings.layout.fields.map (·.1)).Nodup by decide, ?_⟩
    simp only [List.forall_mem_cons]
    exact ⟨⟨.text, rfl, rfl⟩, ⟨.text, rfl, rfl⟩, List.forall_mem_nil _⟩
  refine ⟨_, rfl, show (layout.fields.map (·.1)).Nodup by decide, ?_⟩
  simp only [List.forall_mem_cons]
  exact ⟨⟨_, rfl, hpaths⟩, ⟨_, rfl, hschemas⟩, ⟨_, rfl, houtput⟩, ⟨_, rfl, hlogging⟩,
    List.forall_mem_nil _⟩

/-- Whatever is left of a tree of settings, JSON reads it back from its compact text. -/
theorem readFields_rest (o : Omission) (hyaml : p.extension? ≠ some "yaml")
    (hyml : p.extension? ≠ some "yml") (hn : s.schemas.summaryLength ≤ Number.maxInt) :
    readFields p (o.rest s.tree).compact = .ok (o.rest s.tree) := by
  have hjson : ¬ (p.extension? = some "yaml" || p.extension? = some "yml") := by
    simp [hyaml, hyml]
  rw [readFields, if_neg hjson, Json.readSections_compact (o.conforms_rest (conforms_tree hn))]
  rfl

/-- Settings written to a file, with whatever sections and fields left out, are read back with the
standard values in what is left out and unchanged in all other fields; nothing left out gives the
settings back. A null base of identifiers stays none, and one that is left out is the standard base.
-/
theorem ofFile_rest (o : Omission) (hs : s.Usable) (htext : d.readText p = .ok text)
    (hread : readFields p text = .ok (o.rest s.tree)) :
    ∃ r, ofFile d p = .ok r ∧
      (∀ f : SettingsField, f.get r = if o.covers f then f.get standard else f.get s) ∧
      ((∀ f, o.covers f = false) → r = s) ∧
      r.schemas.idBase =
        if o.covers .idBase then some SchemaSettings.standardIdBase else s.schemas.idBase := by
  have haccepts : Accepts d p (ofTree (o.rest s.tree)) :=
    ⟨Disk.exists_of_readText htext, ⟨_, _, htext, hread, rfl⟩, usable_ofTree_rest hs o⟩
  refine ⟨_, ofFile_of_accepts haccepts, get_ofTree_rest o s, fun hnone => ?_,
    get_ofTree_rest o s .idBase⟩
  refine ext_fields fun f => ?_
  rw [get_ofTree_rest, hnone, if_neg Bool.false_ne_true]

def Trimmed.settings : Settings :=
  { standard with
    schemas := ⟨".term.yaml", none, "all.md", "Σ: terms", 0⟩
    output := ⟨.json, false, false⟩
    logging.level := "debug" }

def Trimmed.omission : Omission where
  sections name := name = "paths" || name = "logging"
  fields part name :=
    (part, name) = ("schemas", "catalog_file") || (part, name) = ("output", "color")

def Trimmed.written : String :=
  "schemas:\n  suffix: .term.yaml\n  id_base: null\n  catalog_title: 'Σ: terms'\n" ++
    "  summary_length: 0\noutput:\n  format: json\n  progress: false\n"

def Trimmed.bare : Omission := ⟨fun _ => false, fun _ _ => true⟩

def Trimmed.disk : Disk :=
  ⟨[(["s.yaml"], .file (.text written)),
    (["s.json"], .file (.text (bare.rest settings.tree).compact))], []⟩

theorem Trimmed.filled_in :
    ofFile disk ⟨"s.yaml"⟩ = .ok
      { standard with
        schemas := ⟨".term.yaml", none, standard.schemas.catalogFile, "Σ: terms", 0⟩
        output := ⟨.json, true, false⟩ } ∧
      ofFile disk ⟨"s.json"⟩ = .ok standard := by
  have hs : settings.Usable := by decide
  constructor
  · have htext : disk.readText ⟨"s.yaml"⟩ = .ok written := by decide +kernel
    have hread : readFields ⟨"s.yaml"⟩ written = .ok (omission.rest settings.tree) := by
      decide +kernel
    obtain ⟨r, hr, hget, -⟩ := ofFile_rest omission hs htext hread
    rw [hr]
    refine congrArg _ (ext_fields fun f => ?_)
    rw [hget]
    cases f <;> rfl
  · have htext : disk.readText ⟨"s.json"⟩ = .ok (bare.rest settings.tree).compact := by
      decide +kernel
    have hread := readFields_rest (p := ⟨"s.json"⟩) (s := settings) bare (by decide +kernel)
      (by decide +kernel) (by decide)
    obtain ⟨r, hr, hget, -⟩ := ofFile_rest bare hs htext hread
    rw [hr]
    refine congrArg _ (ext_fields fun f => ?_)
    rw [hget]
    cases f <;> rfl

end Settings

end Schemata
