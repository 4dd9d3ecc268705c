import Schemata.Command.Arguments
import Schemata.Grammar.Check
import Schemata.Output.Console
import Schemata.Settings.Logging

/-!
# Running a command line

`validateFiles` and `writeSite` do the work of the two commands; here they get their settings, and
what they answer is printed and turned into an exit code. `Command.run` is a whole run: from
arguments, surroundings and a disk to an `Outcome`. Log lines are no part of it.
-/

namespace Schemata

inductive Failure where
  | settings (e : SettingsError)
  | discovery (e : DiscoveryError)
  | site (e : SiteError)
  | invalid (failed total : Nat)
  | skipped (paths : List FilePath)
deriving DecidableEq, Repr

namespace Failure

def message : Failure → String
  | settings e => e.message
  | discovery e => e.message
  | site e => e.message
  | invalid failed total =>
    toString failed ++ " of " ++ toString total ++ " schemas failed validation"
  | skipped ps =>
    "Documentation skipped " ++ toString ps.length ++ " unreadable schema(s): "
      ++ ", ".intercalate (ps.map (·.text))

def exitCode : Failure → Nat
  | invalid .. | skipped _ => 1
  | settings (.unreadable _) => 2
  | discovery _ => 3
  | settings .emptySuffix | settings .emptyCatalogFile => 4
  | site _ => 6
  | settings (.json _) => 7
  | settings (.yaml _) => 8

def showsHelp : Failure → Bool
  | discovery (.notFound _) => true
  | _ => false

def formatted (e : Failure) (color : Bool) : String :=
  (if color then Style.redBold.paint "Error:" else "Error:") ++ " " ++ e.message

def report (e : Failure) (color : Bool) : String :=
  Console.line (e.formatted color)
    ++ if e.showsHelp then "\nFor more information, try '--help'\n" else ""

end Failure

/-- What a command prints, how it ends, and the disk that it leaves. -/
structure TaskResult where
  printed : String
  result : Except Failure Unit
  disk : Disk

namespace Validate

def fileLines (c : Console) (r : FileReport) : String :=
  c.step ("→ Validating " ++ r.path.text) ++
    match r.outcome with
    | .valid => c.success "  ✔ OK"
    | .parseFailed text => c.error ("  ✖ Failed to parse YAML: " ++ text)
    | .invalid vs => String.join (vs.map fun v => c.error ("  ✖ " ++ v.text))
    | .referenceFailed text => c.error ("  ✖ Reference error: " ++ text)

def summaryLines (c : Console) (rs : List FileReport) : String :=
  String.join (rs.map (fileLines c)) ++ c.step ""
    ++ c.step (toString (FileReport.countValid rs) ++ "/" ++ toString rs.length ++ " schemas valid")
    ++ if FileReport.hasFailures rs then c.error "Schema validation FAILED."
      else c.success "All schemas validated successfully."

def reportTree (rs : List FileReport) : Tree :=
  .mapping [("valid", .int (FileReport.countValid rs)), ("total", .int rs.length),
    ("reports", .list (rs.map FileReport.tree))]

def result (rs : List FileReport) : Except Failure Unit :=
  if FileReport.hasFailures rs then
    .error (.invalid (rs.length - FileReport.countValid rs) rs.length)
  else .ok ()

def run (s : Settings) (c : Console) (root : FilePath) (suffix : String) (d : Disk) : TaskResult :=
  match d.discover root suffix with
  | .error e => ⟨"", .error (.discovery e), d⟩
  | .ok ps =>
    let notice :=
      if ps.isEmpty then
        c.warning ("No files ending in '" ++ suffix ++ "' found under " ++ root.text)
      else ""
    let rs := validateFiles draft07 d (s.validation root) ps
    ⟨notice ++ if c.isHuman then summaryLines c rs else c.data (reportTree rs), result rs, d⟩

end Validate

namespace Docs

structure Skipped where
  path : FilePath
  cause : FileError
deriving DecidableEq, Repr

def Skipped.tree (s : Skipped) : Tree :=
  .mapping [("path", .string s.path.text), ("error", .string s.cause.message)]

/-- The schemas of some files, and the files that hold none. -/
def loadAll (d : Disk) (root : FilePath) : List FilePath → List Schema × List Skipped
  | [] => ([], [])
  | p :: ps =>
    let (ss, skipped) := loadAll d root ps
    match Schema.load d p root with
    | .ok s => (s :: ss, skipped)
    | .error e => (ss, ⟨p, e⟩ :: skipped)

def humanLines (c : Console) (out : FilePath) (r : SiteReport) : String :=
  c.debug ("Wrote catalog " ++ r.catalog.text)
    ++ String.join (r.pages.map fun p => c.debug ("Wrote " ++ p.text))
    ++ c.success ("✅ Generated documentation for " ++ toString r.pages.length ++ " schemas")
    ++ c.step ("📁 Documentation saved to " ++ out.text)

def reportTree (out : FilePath) (r : SiteReport) (skipped : List Skipped) : Tree :=
  .mapping [("output_dir", .string out.text), ("catalog", .string r.catalog.text),
    ("pages", .list (r.pages.map fun p => .string p.text)),
    ("skipped", .list (skipped.map Skipped.tree))]

def result (skipped : List Skipped) : Except Failure Unit :=
  if skipped.isEmpty then .ok () else .error (.skipped (skipped.map (·.path)))

def run (s : Settings) (c : Console) (root out : FilePath) (suffix : String) (d : Disk) :
    TaskResult :=
  let start := c.info "Generating schema documentation..."
  match d.discover root suffix with
  | .error e => ⟨start, .error (.discovery e), d⟩
  | .ok ps =>
    let (ss, skipped) := loadAll d root ps
    let printed := start ++ String.join (skipped.map fun k => c.error ("  ✖ " ++ k.cause.message))
    match writeSite s.site out ss d with
    | (.error e, d) => ⟨printed, .error (.site e), d⟩
    | (.ok r, d) =>
      ⟨printed ++ if c.isHuman then humanLines c out r else c.data (reportTree out r skipped),
        result skipped, d⟩

end Docs

/-- What a run leaves behind: its exit code, what it wrote to its two outputs, and the disk. -/
structure Outcome where
  exitCode : Nat
  output : String
  errors : String
  disk : Disk
deriving Repr

namespace Command

def program : String := "ontoref"

def versionText (level : Level) : String :=
  let name :=
    match level with
    | .top => program
    | .validate => program ++ "-validate"
    | .docs => program ++ "-docs"
    | .completions => program ++ "-completions"
  Console.line (name ++ " 0.1.0")

def helpText : String :=
  "Usage: " ++ program ++ " [OPTIONS] <COMMAND>\n\n"
    ++ "Commands:\n"
    ++ "  validate [ROOT] [--suffix SUFFIX]\n"
    ++ "  docs [ROOT] [--out DIR] [--suffix SUFFIX]\n"
    ++ "  completions SHELL\n\n"
    ++ "Options:\n"
    ++ "  -v, --verbose\n  -q, --quiet\n  -c, --config FILE\n"
    ++ "  -o, --output human|json|yaml|json-pretty\n  --no-color\n  -h, --help\n  -V, --version\n"

def ofMisuse (m : Misuse) (d : Disk) : Outcome :=
  match m with
  | .helpWanted => ⟨m.exitCode, helpText, "", d⟩
  | .versionWanted level => ⟨m.exitCode, versionText level, "", d⟩
  | .noArguments => ⟨m.exitCode, "", helpText, d⟩
  | _ => ⟨m.exitCode, "", Console.line ("error: " ++ m.message), d⟩

def completionWords : String := Console.line "validate docs completions help"

def runTask (s : Settings) (c : Console) (d : Disk) : Task → TaskResult
  | .validate root suffix => Validate.run s c (root.getD s.paths.ontologyDir) (s.suffix suffix) d
  | .docs root out suffix =>
    Docs.run s c (root.getD s.paths.ontologyDir) (out.getD s.paths.docsDir) (s.suffix suffix) d
  | .completions _ => ⟨completionWords, .ok (), d⟩

def lines (messages : List String) : String := String.join (messages.map Console.line)

def loggingWarnings (cl : CommandLine) (vs : Variables) (s : Settings) : List String :=
  let (l, warnings) := Logging.ofSettings cl.verbosity s.logging
  warnings ++ (l.withVariables vs).2

def console (cl : CommandLine) (s : Settings) (color : Bool) : Console :=
  ⟨cl.output.getD s.output.format, color, cl.quiet, cl.verbosity⟩

/-- Carries a command line out. Colours need a terminal. -/
def carryOut (cl : CommandLine) (env : Environment) (terminal : Bool) (d : Disk) : Outcome :=
  let color := !cl.noColor && terminal
  let (rejected, loaded) := Settings.load d env cl.config
  let warnings := lines (rejected.map Settings.Rejected.message)
  match loaded with
  | .error e =>
    let failure := Failure.settings e
    ⟨failure.exitCode, "", warnings ++ failure.report color, d⟩
  | .ok s =>
    let color := color && s.output.color
    let warnings := warnings ++ lines (loggingWarnings cl env.vars s)
    let answer := runTask s (console cl s color) d cl.task
    match answer.result with
    | .ok () => ⟨0, answer.printed, warnings, answer.disk⟩
    | .error e => ⟨e.exitCode, answer.printed, warnings ++ e.report color, answer.disk⟩

def run (arguments : List String) (env : Environment) (terminal : Bool) (d : Disk) : Outcome :=
  match CommandLine.parse env.vars arguments with
  | .error m => ofMisuse m d
  | .ok cl => carryOut cl env terminal d

end Command

end Schemata
