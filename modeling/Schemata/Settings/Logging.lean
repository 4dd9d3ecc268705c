import Schemata.Settings.File
import Schemata.Text.LetterCase

/-!
# What is logged

A run logs as its verbosity says. Without any verbosity the level comes from the settings, and
variables have the last word.
-/

namespace Schemata

inductive LogFormat where
  | compact
  | full
  | json
deriving DecidableEq, Repr

def lowerCased (s : String) : String := String.ofList (s.toList.flatMap lowerCase)

namespace LogFormat

def name : LogFormat → String
  | compact => "Compact"
  | full => "Full"
  | json => "Json"

def ofName? (s : String) : Option LogFormat :=
  match lowerCased s with
  | "compact" => some compact
  | "full" => some full
  | "json" => some json
  | _ => none

end LogFormat

structure Logging where
  level : String
  format : LogFormat
  console : Bool
  threadIds : Bool
  sourceLocation : Bool
deriving DecidableEq, Repr

namespace Logging

def ofVerbosity (verbosity : Nat) : Logging :=
  match verbosity with
  | 0 => ⟨"warn", .compact, true, false, false⟩
  | 1 => ⟨"info", .compact, true, false, false⟩
  | 2 => ⟨"debug", .compact, true, false, true⟩
  | _ => ⟨"trace", .full, true, true, true⟩

/-- Logging by verbosity and settings, with a warning for a format that does not exist. The highest
verbosity keeps its own format. -/
def ofSettings (verbosity : Nat) (s : LoggingSettings) : Logging × List String :=
  let base := ofVerbosity verbosity
  let base := if verbosity = 0 then { base with level := s.level } else base
  match LogFormat.ofName? s.format with
  | some format => (if verbosity < 3 then { base with format := format } else base, [])
  | none =>
    (base, ["Warning: Invalid log format '" ++ s.format ++ "', using " ++ base.format.name])

def withLevel (vs : Variables) (l : Logging) : Logging :=
  match vs.lookup "RUST_LOG" with
  | some level => { l with level := level }
  | none => l

def withFormat (vs : Variables) (l : Logging) : Logging × List String :=
  match vs.lookup "ONTOREF_LOG_FORMAT" with
  | none => (l, [])
  | some name =>
    match LogFormat.ofName? name with
    | some format => ({ l with format := format }, [])
    | none => (l, ["Warning: Invalid log format: " ++ name ++ ", using default"])

def withConsole (vs : Variables) (l : Logging) : Logging :=
  match vs.lookup "ONTOREF_LOG_CONSOLE" with
  | some s => { l with console := lowerCased s = "true" || s = "1" }
  | none => l

def withVariables (vs : Variables) (l : Logging) : Logging × List String :=
  let (l, warnings) := (l.withLevel vs).withFormat vs
  (l.withConsole vs, warnings)

def tree (l : Logging) : Tree :=
  .mapping [("level", .string l.level), ("format", .string l.format.name),
    ("console", .bool l.console), ("thread_ids", .bool l.threadIds),
    ("source_location", .bool l.sourceLocation)]

end Logging

end Schemata
