import Schemata.Json.Record
import Schemata.Settings.Basic
import Schemata.Yaml.Record

/-!
# Settings files

A settings file is named for the run, or the first usable one of the places where settings are
looked for. A file that is found and cannot be used is an error in the first case, and passed over
with a warning in the second.
-/

namespace Schemata

inductive SettingsError where
  | unreadable (cause : DiskError)
  | yaml (e : Yaml.Error)
  | json (e : Json.Error)
  | emptySuffix
  | emptyCatalogFile
deriving DecidableEq, Repr

def SettingsError.message : SettingsError → String
  | unreadable cause => "IO error: " ++ cause.message
  | yaml e => "YAML error: " ++ e.message
  | json e => "JSON error: " ++ e.message
  | emptySuffix => "Configuration error: schemas.suffix must not be empty"
  | emptyCatalogFile => "Configuration error: schemas.catalog_file must not be empty"

abbrev Variables := List (String × String)

/-- What a run can see of its surroundings: the variables, the home directory of the user, and the
directory in which programs keep settings of the user. The system may know neither directory. -/
structure Environment where
  vars : Variables
  home : Option FilePath
  settingsHome : Option FilePath
deriving DecidableEq, Repr

/-- The surroundings as variables tell them. A home directory that they do not name is the one on
record for the account; settings are kept in it unless an absolute path says where. -/
def Environment.ofVariables (vs : Variables) (onRecord : Option String) : Environment :=
  let home := ((vs.lookup "HOME").filter (· ≠ "")).or (onRecord.filter (· ≠ ""))
  let apart := (vs.lookup "XDG_CONFIG_HOME").filter fun s => FilePath.isAbsolute ⟨s⟩
  ⟨vs, home.map FilePath.mk,
    (apart.map FilePath.mk).or (home.map fun h => FilePath.join ⟨h⟩ ⟨".config"⟩)⟩

namespace Settings

/-- Rejects settings that no run could use. -/
def check (s : Settings) : Except SettingsError Settings :=
  if s.schemas.suffix = "" then .error .emptySuffix
  else if s.schemas.catalogFile = "" then .error .emptyCatalogFile
  else .ok s

/-- The fields that a text sets. The extensions for YAML count in lower case only, and any other
file is JSON. -/
def readFields (p : FilePath) (text : String) : Except SettingsError Tree :=
  if p.extension? = some "yaml" || p.extension? = some "yml" then
    (Yaml.readSections layout text).mapError .yaml
  else (Json.readSections layout text).mapError .json

def ofFile (d : Disk) (p : FilePath) : Except SettingsError Settings := do
  let text ← (d.readText p).mapError .unreadable
  check (ofTree (← readFields p text))

def places (env : Environment) : List FilePath :=
  [⟨".ontoref.yaml"⟩, ⟨".ontoref.json"⟩, ⟨"ontoref.yaml"⟩, ⟨"ontoref.json"⟩]
    ++ env.settingsHome.toList.flatMap (fun dir =>
      let own := dir.join ⟨"ontoref"⟩
      [own.join ⟨"config.yaml"⟩, own.join ⟨"config.json"⟩])
    ++ env.home.toList.flatMap fun home =>
      [home.join ⟨".ontoref.yaml"⟩, home.join ⟨".ontoref.json"⟩]

structure Rejected where
  place : FilePath
  cause : SettingsError
deriving DecidableEq, Repr

def Rejected.message (r : Rejected) : String :=
  "Warning: Failed to load config from " ++ visible r.place.text ++ ": " ++ r.cause.message

/-- The settings of the first usable place, or the standard ones, with the rejected places. -/
def search (d : Disk) : List FilePath → List Rejected × Settings
  | [] => ([], standard)
  | p :: ps =>
    if d.exists p then
      match ofFile d p with
      | .ok s => ([], s)
      | .error e =>
        let (rejected, s) := search d ps
        (⟨p, e⟩ :: rejected, s)
    else search d ps

def load (d : Disk) (env : Environment) (file : Option FilePath) :
    List Rejected × Except SettingsError Settings :=
  match file with
  | some p => ([], ofFile d p)
  | none =>
    let (rejected, s) := search d (places env)
    (rejected, .ok s)

end Settings

end Schemata
