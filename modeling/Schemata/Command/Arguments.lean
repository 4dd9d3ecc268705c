import Schemata.Output.Format
import Schemata.Settings.File

/-!
# Command lines

A command line has general options, one command, and the command's own options and values. General
options may stand on both sides of the command; each side is a `Level` that is read and checked by
itself, the inner one first. Options are long (`--name value`, `--name=value`) or short (`-n value`,
`-nvalue`, several switches in one), and behind `--` everything is a value.
-/

namespace Schemata

inductive Shell where
  | bash
  | zsh
  | fish
  | powerShell
  | elvish
deriving DecidableEq, Repr

namespace Shell

def name : Shell → String
  | bash => "bash"
  | zsh => "zsh"
  | fish => "fish"
  | powerShell => "power-shell"
  | elvish => "elvish"

def all : List Shell := [bash, zsh, fish, powerShell, elvish]

def ofName? (name : String) : Option Shell := all.find? (·.name = name)

end Shell

inductive Task where
  | validate (root : Option FilePath) (suffix : Option String)
  | docs (root out : Option FilePath) (suffix : Option String)
  | completions (shell : Shell)
deriving DecidableEq, Repr

structure CommandLine where
  verbose : Nat
  quiet : Bool
  config : Option FilePath
  output : Option OutputFormat
  noColor : Bool
  task : Task
deriving DecidableEq, Repr

def CommandLine.verbosity (c : CommandLine) : Nat := if c.quiet then 0 else c.verbose

/-- Where an argument stands: before the command, or behind one. -/
inductive Level where
  | top
  | validate
  | docs
  | completions
deriving DecidableEq, Repr

inductive Switch where
  | verbose
  | quiet
  | noColor
  | help
  | version
deriving DecidableEq, Repr

/-- What takes a value: options, and the places for values. -/
inductive Slot where
  | config
  | output
  | suffix
  | out
  | root
  | shell
deriving DecidableEq, Repr

/-- Why a command line is not carried out. The first two are no mistakes. -/
inductive Misuse where
  | helpWanted
  | versionWanted (level : Level)
  | noArguments
  | noCommand
  | unknownCommand (name : String)
  | unknownArgument (text : String)
  | unexpectedValue (text : String)
  | invalidValue (text : String)
  | conflict
  | missingValue
deriving DecidableEq, Repr

namespace Misuse

def exitCode : Misuse → Nat
  | helpWanted | versionWanted _ => 0
  | _ => 2

def message : Misuse → String
  | helpWanted | versionWanted _ => ""
  | noArguments | noCommand => "a command is missing"
  | unknownCommand name => "there is no command '" ++ name ++ "'"
  | unknownArgument text => "unexpected argument '" ++ text ++ "'"
  | unexpectedValue text => "unexpected value '" ++ text ++ "'"
  | invalidValue text => "invalid value '" ++ text ++ "'"
  | conflict => "two arguments exclude each other"
  | missingValue => "a required value is missing"

end Misuse

namespace Level

def ofCommand? (name : String) : Option Level :=
  match name with
  | "validate" => some validate
  | "docs" => some docs
  | "completions" => some completions
  | _ => none

/-- The slot of the level's value that is no option. -/
def place? : Level → Option Slot
  | top => none
  | validate | docs => some .root
  | completions => some .shell

end Level

/-- What an option is: a switch, or the slot of its value. -/
inductive Named where
  | switch (s : Switch)
  | slot (s : Slot)
deriving DecidableEq, Repr

def Named.ofLong? (level : Level) (name : String) : Option Named :=
  match name, level with
  | "verbose", _ => some (.switch .verbose)
  | "quiet", _ => some (.switch .quiet)
  | "no-color", _ => some (.switch .noColor)
  | "help", _ => some (.switch .help)
  | "version", _ => some (.switch .version)
  | "config", _ => some (.slot .config)
  | "output", _ => some (.slot .output)
  | "suffix", .validate | "suffix", .docs => some (.slot .suffix)
  | "out", .docs => some (.slot .out)
  | _, _ => none

def Named.ofShort? (c : Char) : Option Named :=
  match c with
  | 'v' => some (.switch .verbose)
  | 'q' => some (.switch .quiet)
  | 'h' => some (.switch .help)
  | 'V' => some (.switch .version)
  | 'c' => some (.slot .config)
  | 'o' => some (.slot .output)
  | _ => none

structure Given where
  verbose : Nat
  quiet : Bool
  noColor : Bool
  config : Option FilePath
  output : Option OutputFormat
  suffix : Option String
  out : Option FilePath
  root : Option FilePath
  shell : Option Shell
deriving DecidableEq, Repr, Inhabited

namespace Given

def nothing : Given := ⟨0, false, false, none, none, none, none, none, none⟩

def pathValue (text : String) : Except Misuse FilePath :=
  if text = "" then .error (.invalidValue text) else .ok ⟨text⟩

def known {α : Type} (text : String) : Option α → Except Misuse α
  | some x => .ok x
  | none => .error (.invalidValue text)

def once (taken : Bool) : Except Misuse Unit := if taken then .error .conflict else .ok ()

def store (g : Given) (slot : Slot) (text : String) : Except Misuse Given := do
  match slot with
  | .config =>
    once g.config.isSome
    return { g with config := some (← pathValue text) }
  | .output =>
    once g.output.isSome
    return { g with output := some (← known text (OutputFormat.ofName? text)) }
  | .suffix =>
    once g.suffix.isSome
    return { g with suffix := some text }
  | .out =>
    once g.out.isSome
    return { g with out := some (← pathValue text) }
  | .root =>
    once g.root.isSome
    return { g with root := some (← pathValue text) }
  | .shell =>
    once g.shell.isSome
    return { g with shell := some (← known text (Shell.ofName? text)) }

/-- Verbosity counts its switches, up to what a byte holds. -/
def flip (g : Given) (level : Level) (s : Switch) : Except Misuse Given := do
  match s with
  | .verbose => return { g with verbose := min (g.verbose + 1) 255 }
  | .quiet =>
    once g.quiet
    return { g with quiet := true }
  | .noColor =>
    once g.noColor
    return { g with noColor := true }
  | .help => .error .helpWanted
  | .version => .error (.versionWanted level)

/-- A level without an option for the settings file looks at the variable for it. -/
def configByVariable (g : Given) (vs : Variables) : Except Misuse (Option FilePath) :=
  match g.config, vs.lookup "ONTOREF_CONFIG" with
  | none, some text => do return some (← pathValue text)
  | _, _ => .ok none

def check (g : Given) (level : Level) : Except Misuse Unit :=
  if g.quiet && g.verbose > 0 then .error .conflict
  else if level = .completions && g.shell.isNone then .error .missingValue
  else .ok ()

end Given

/-- A level in the course of reading. An option that waits for its value, or a value that is not
looked at yet, is pending. -/
structure Reading where
  given : Given
  pending : Option (Slot × Option String)
  placeTaken : Bool
  /-- Whether everything that follows is a value. -/
  valuesOnly : Bool
deriving Repr, Inhabited

namespace Reading

def start : Reading := ⟨.nothing, none, false, false⟩

def isWaiting (r : Reading) : Bool :=
  match r.pending with
  | some (_, none) => true
  | _ => false

def settle (r : Reading) : Except Misuse Reading :=
  match r.pending with
  | none => .ok r
  | some (_, none) => .error (.invalidValue "")
  | some (slot, some text) => do
    return { r with given := ← r.given.store slot text, pending := none }

def flip (r : Reading) (level : Level) (s : Switch) : Except Misuse Reading := do
  let r ← r.settle
  return { r with given := ← r.given.flip level s }

def openSlot (r : Reading) (slot : Slot) (attached : Option String) : Except Misuse Reading := do
  let r ← r.settle
  match attached with
  | some text => return { r with given := ← r.given.store slot text }
  | none => return { r with pending := some (slot, none) }

def readLong (r : Reading) (level : Level) (name : String) (attached : Option String) :
    Except Misuse Reading :=
  match Named.ofLong? level name, attached with
  | some (.slot slot), _ => r.openSlot slot attached
  | some (.switch s), none => r.flip level s
  | some (.switch _), some text => .error (.unexpectedValue text)
  | none, _ => .error (.unknownArgument ("--" ++ name))

/-- Reads short options in one argument; behind one that takes a value stands its value. -/
def readShort (level : Level) : List Char → Reading → Except Misuse Reading
  | [], r => .ok r
  | c :: cs, r =>
    match Named.ofShort? c with
    | some (.switch s) => do readShort level cs (← r.flip level s)
    | some (.slot slot) =>
      match cs with
      | [] => r.openSlot slot none
      | '=' :: text | text => r.openSlot slot (some (String.ofList text))
    | none => .error (.unknownArgument (String.ofList ['-', c]))

def isCommand (text : String) : Bool := text = "help" || (Level.ofCommand? text).isSome

def readPlaced (r : Reading) (level : Level) (text : String) : Except Misuse Reading :=
  match level.place?, r.placeTaken with
  | some slot, false => do
    let r ← r.settle
    return { r with pending := some (slot, some text), placeTaken := true }
  | _, _ =>
    if level = .top && !(r.valuesOnly && isCommand text) then .error (.unknownCommand text)
    else .error (.unknownArgument text)

def readArgument (r : Reading) (level : Level) (text : String) : Except Misuse Reading :=
  if r.valuesOnly then r.readPlaced level text
  else
    match text.toList with
    | ['-', '-'] => .ok { r with valuesOnly := true }
    | '-' :: '-' :: cs =>
      let name := cs.takeWhile (· ≠ '=')
      let attached :=
        match cs.drop name.length with
        | [] => none
        | _ :: value => some (String.ofList value)
      r.readLong level (String.ofList name) attached
    | '-' :: c :: cs => readShort level (c :: cs) r
    | _ =>
      match r.pending with
      | some (slot, none) => .ok { r with pending := some (slot, some text) }
      | _ => r.readPlaced level text

/-- Help is about commands that exist; a command has none of its own. -/
def helpOn : List String → Misuse
  | [] => .helpWanted
  | [name] => if isCommand name then .helpWanted else .unknownCommand name
  | name :: other :: _ => .unknownCommand (if isCommand name then other else name)

/-- Reads the arguments of a level, at the top up to the command; gives also the command's level and
the arguments behind it. -/
def readAll (level : Level) : List String → Reading →
    Except Misuse (Reading × Option (Level × List String))
  | [], r => .ok (r, none)
  | text :: rest, r =>
    if level = .top && !r.valuesOnly && !r.isWaiting && isCommand text then
      match Level.ofCommand? text with
      | some inner => .ok (r, some (inner, rest))
      | none => .error (helpOn rest)
    else do readAll level rest (← r.readArgument level text)

def finish (r : Reading) (vs : Variables) : Except Misuse (Given × Option FilePath) := do
  let r ← r.settle
  return (r.given, ← r.given.configByVariable vs)

end Reading

namespace CommandLine

def task? (level : Level) (g : Given) : Option Task :=
  match level with
  | .top => none
  | .validate => some (.validate g.root g.suffix)
  | .docs => some (.docs g.root g.out g.suffix)
  | .completions => g.shell.map .completions

/-- General options given behind the command replace those before it, and both replace the
variable. -/
def ofLevels (outer inner : Given) (byVariable : Option FilePath) (task : Task) : CommandLine where
  verbose := if inner.verbose > 0 then inner.verbose else outer.verbose
  quiet := inner.quiet || outer.quiet
  config := inner.config <|> outer.config <|> byVariable
  output := inner.output <|> outer.output
  noColor := inner.noColor || outer.noColor
  task := task

def parse (vs : Variables) (arguments : List String) : Except Misuse CommandLine := do
  match ← Reading.readAll .top arguments .start with
  | (r, none) =>
    let (outer, byVariable) ← r.finish vs
    .error (if outer = .nothing && byVariable.isNone then .noArguments else .noCommand)
  | (r, some (level, rest)) =>
    let (s, _) ← Reading.readAll level rest .start
    let (inner, byVariable) ← s.finish vs
    inner.check level
    let (outer, _) ← r.finish vs
    outer.check .top
    match task? level inner with
    | some task => return ofLevels outer inner byVariable task
    | none => .error .missingValue

end CommandLine

end Schemata
