import Schemata.Source
import Schemata.Tree.Path

/-!
# References

A reference names a node of its own file by a fragment, or a node of another file. A `ResolutionKey`
is a node of the reference graph: a file and a pointer into it. The `ResolutionStack` holds the
nodes being descended into; a node already there is not entered again, and the depth is limited.
-/

namespace Schemata

inductive Reference where
  | fragment (pointer : String)
  | external (target pointer : String)
deriving DecidableEq, Repr

namespace Reference

/-- Cuts a reference at its first number sign. -/
def parse (raw : String) : Reference :=
  let cs := raw.toList
  let target := cs.takeWhile (· ≠ '#')
  match cs.drop target.length with
  | [] => external raw ""
  | _ :: pointer =>
    if target.isEmpty then fragment (String.ofList pointer)
    else external (String.ofList target) (String.ofList pointer)

def pointer : Reference → String
  | fragment p | external _ p => p

def target? : Reference → Option String
  | fragment _ => none
  | external t _ => some t

def isFragment (r : Reference) : Bool := r.target?.isNone

end Reference

structure ResolutionKey where
  file : FilePath
  pointer : String
deriving DecidableEq, Repr, Inhabited

namespace ResolutionKey

/-- Keys of one node: files are compared as paths. -/
def same (a b : ResolutionKey) : Bool := a.file.same b.file && a.pointer = b.pointer

def text (k : ResolutionKey) : String := k.file.text ++ "#" ++ k.pointer

def root (d : Disk) (file : FilePath) : ResolutionKey := ⟨d.canonicalOrGiven file, ""⟩

end ResolutionKey

inductive Unresolved where
  | remote
  | cannotOpen (candidate : FilePath) (cause : DiskError)
  | notLoaded (cause : FileError)
  | pointer (cause : PointerError)
deriving DecidableEq, Repr

def Unresolved.message : Unresolved → String
  | remote => "remote references are not supported"
  | cannotOpen p cause => "cannot open '" ++ p.text ++ "': " ++ cause.message
  | notLoaded cause => "target could not be loaded: " ++ cause.message
  | pointer cause => cause.message

inductive LoadError where
  | file (e : FileError)
  | unresolved (reference : String) (source : FilePath) (reason : Unresolved)
  | cyclic (chain : List ResolutionKey)
deriving DecidableEq, Repr

namespace LoadError

def message : LoadError → String
  | file e => e.message
  | unresolved reference source reason =>
    "Failed to resolve reference '" ++ reference ++ "' in '" ++ source.text ++ "': " ++
      reason.message
  | cyclic chain => "Cyclic reference detected: " ++ " -> ".intercalate (chain.map (·.text))

def path? : LoadError → Option FilePath
  | file e => some e.path
  | unresolved _ source _ => some source
  | cyclic _ => none

/-- Whether the error comes from following a reference and not from reading the document itself. -/
def isReference : LoadError → Bool
  | file _ => false
  | unresolved .. | cyclic _ => true

end LoadError

/-- The nodes being descended into, outermost first; the first one is the document itself. -/
structure ResolutionStack where
  keys : List ResolutionKey
  maxDepth : Nat
deriving Repr, Inhabited

namespace ResolutionStack

def defaultDepth : Nat := 64

def new (d : Disk) (origin : FilePath) : ResolutionStack := ⟨[.root d origin], defaultDepth⟩

def currentFile (s : ResolutionStack) : FilePath :=
  match s.keys.getLast? with
  | some k => k.file
  | none => ⟨""⟩

def push (s : ResolutionStack) (k : ResolutionKey) : Except LoadError ResolutionStack :=
  if s.keys.any (·.same k) || s.keys.length ≥ s.maxDepth then .error (.cyclic (s.keys ++ [k]))
  else .ok { s with keys := s.keys ++ [k] }

def room (s : ResolutionStack) : Nat := s.maxDepth - s.keys.length

/-- Leaves the innermost node; the document itself stays. -/
def pop (s : ResolutionStack) : Option ResolutionKey × ResolutionStack :=
  if s.keys.length > 1 then (s.keys.getLast?, { s with keys := s.keys.dropLast })
  else (none, s)

end ResolutionStack

end Schemata
