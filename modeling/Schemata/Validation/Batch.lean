import Schemata.Validation.Walk

/-!
# Validating many files

Every file of a list gets an outcome of its own, whatever became of the files before it. One
resolver serves them all, so that a document is read once.
-/

namespace Schemata

inductive FileOutcome where
  | valid
  | invalid (violations : List Violation)
  /-- The file could not be read or parsed. -/
  | parseFailed (text : String)
  /-- A reference could not be followed. -/
  | referenceFailed (text : String)
deriving DecidableEq, Repr

namespace FileOutcome

def isValid : FileOutcome → Bool
  | valid => true
  | _ => false

def ofViolations : List Violation → FileOutcome
  | [] => valid
  | vs => invalid vs

/-- Reference failures are reported apart from files that could not be read. A malformed file is
reported by what its parser said. -/
def ofError (e : LoadError) : FileOutcome :=
  if e.isReference then referenceFailed e.message
  else
    match e with
    | .file (.malformed _ cause) => parseFailed cause.message
    | e => parseFailed e.message

def tree : FileOutcome → Tree
  | valid => .mapping [("status", .string "valid")]
  | invalid vs =>
    .mapping [("status", .string "invalid"), ("details", .list (vs.map Violation.tree))]
  | parseFailed text => .mapping [("status", .string "parse_failed"), ("details", .string text)]
  | referenceFailed text =>
    .mapping [("status", .string "reference_failed"), ("details", .string text)]

end FileOutcome

structure FileReport where
  path : FilePath
  outcome : FileOutcome
deriving DecidableEq, Repr

def FileReport.tree (r : FileReport) : Tree :=
  .mapping [("path", .string r.path.text), ("outcome", r.outcome.tree)]

structure ValidationConfig where
  inputRoot : FilePath
  /-- Identifiers that begin so name files beneath the input directory. -/
  idBase : Option String
deriving DecidableEq, Repr

namespace ValidationConfig

def resolver (c : ValidationConfig) : Resolver :=
  match c.idBase with
  | some base => .withIdBase base c.inputRoot
  | none => .empty

end ValidationConfig

namespace FileReport

def countValid (rs : List FileReport) : Nat := rs.countP (·.outcome.isValid)

def hasFailures (rs : List FileReport) : Bool := countValid rs < rs.length

end FileReport

/-- Loads a file and validates it. -/
def checkFile (grammar : Tree → List Violation) (d : Disk) (inputRoot : FilePath) (r : Resolver)
    (p : FilePath) : Except LoadError (List Violation) × Resolver :=
  match Schema.load d p inputRoot with
  | .error e => (.error (.file e), r)
  | .ok s => s.validate grammar d r

def validateFile (grammar : Tree → List Violation) (d : Disk) (inputRoot : FilePath) (r : Resolver)
    (p : FilePath) : FileOutcome × Resolver :=
  match checkFile grammar d inputRoot r p with
  | (.ok vs, r) => (.ofViolations vs, r)
  | (.error e, r) => (.ofError e, r)

/-- The reports of files in their order, from a resolver on. -/
def validateFrom (grammar : Tree → List Violation) (d : Disk) (inputRoot : FilePath)
    (r : Resolver) : List FilePath → List FileReport
  | [] => []
  | p :: ps =>
    let (outcome, r) := validateFile grammar d inputRoot r p
    ⟨p, outcome⟩ :: validateFrom grammar d inputRoot r ps

def validateFiles (grammar : Tree → List Violation) (d : Disk) (c : ValidationConfig)
    (ps : List FilePath) : List FileReport :=
  validateFrom grammar d c.inputRoot c.resolver ps

end Schemata
