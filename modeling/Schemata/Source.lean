import Schemata.File.Disk
import Schemata.Json.Reader
import Schemata.Yaml.Value

/-!
# Reading schema files

A schema file is YAML or JSON by its extension. Reading one gives its tree, or tells whether the
file, its format or its text stood in the way; the shape of the tree is not looked at.
-/

namespace Schemata

inductive Format where
  | yaml
  | json
deriving DecidableEq, Repr

inductive TextError where
  | yaml (e : Yaml.ReadError)
  | json (e : Json.Error)
deriving DecidableEq, Repr

def TextError.message : TextError → String
  | yaml e => e.message
  | json e => e.message

inductive FileError where
  | unreadable (path : FilePath) (cause : DiskError)
  | malformed (path : FilePath) (cause : TextError)
  | unsupportedFormat (path : FilePath)
deriving DecidableEq, Repr

namespace FileError

def path : FileError → FilePath
  | unreadable p _ | malformed p _ | unsupportedFormat p => p

def message : FileError → String
  | unreadable p cause => "Failed to read file '" ++ p.text ++ "': " ++ cause.message
  | malformed p cause => "Failed to parse '" ++ p.text ++ "': " ++ cause.message
  | unsupportedFormat p =>
    "Unsupported file format for '" ++ p.text ++ "'. Expected .yaml, .yml, or .json"

end FileError

namespace Format

/-- The extensions are ASCII, and no letter outside ASCII has one of theirs as its lower case. -/
def ofPath (p : FilePath) : Except FileError Format :=
  match p.extension?.map (fun e => String.ofList (e.toList.map Char.toLower)) with
  | some "yaml" | some "yml" => .ok .yaml
  | some "json" => .ok .json
  | _ => .error (.unsupportedFormat p)

def parse (f : Format) (text : String) : Except TextError Tree :=
  match f with
  | yaml =>
    match Yaml.readTree text with
    | .ok t => .ok t
    | .error e => .error (.yaml e)
  | json =>
    match Json.read text with
    | .ok t => .ok t
    | .error e => .error (.json e)

end Format

namespace Tree

/-- Parses a text; the path only names it in errors. -/
def parse (f : Format) (text : String) (p : FilePath) : Except FileError Tree :=
  match f.parse text with
  | .ok t => .ok t
  | .error e => .error (.malformed p e)

def load (d : Disk) (p : FilePath) : Except FileError Tree := do
  let f ← Format.ofPath p
  match d.readText p with
  | .ok text => parse f text p
  | .error e => .error (.unreadable p e)

end Tree

end Schemata
