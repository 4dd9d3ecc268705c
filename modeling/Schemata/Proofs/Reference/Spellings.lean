import Schemata.Proofs.Reference.History
import Schemata.Proofs.Reference.Identifiers
import Schemata.Proofs.Tree.Writing

/-!
# One file in several references

A file can be referred to by an identifier, by its path from the directory of the file that the
reference is written in, and by nothing but a fragment if it is this very file. All of these find
the same key, and from there on references take the same course.
-/

namespace Schemata

namespace Disk

open FilePath

variable {d : Disk} {dir file names : DiskName} {followLast : Bool} {links : Nat}
  {todo rest : List String} {p q : FilePath} {x : DiskName × DiskItem}

end Disk

namespace Resolver

open Disk FilePath

variable {d : Disk} {b : IdBase} {idBase : Option IdBase} {look : FilePath → Except FileError Tree}
  {raw raw' rel target : String} {o : FilePath} {file origin : DiskName}
  {visited : List ResolutionKey}

namespace Identifies

end Identifies

namespace Neighbours

end Neighbours

def Annal.content : Content := .text "\x7b\"x\":\x7b\"$ref\":\"../b.json#/y\"\x7d\x7d"

/-- The root of the identifiers is a link to the directory of the documents. -/
def Annal.disk : Disk :=
  ⟨[(["docs"], .directory), (["ids"], .link "docs"), (["docs", "e"], .directory),
    (["docs", "e", "a.json"], .file content),
    (["docs", "b.json"], .file (.text "\x7b\"y\":\x7b\"title\":\"Y\"\x7d\x7d"))], ["docs"]⟩

def Annal.base : IdBase := ⟨"urn:", ⟨"../ids"⟩⟩

def Annal.name : DiskName := ["docs", "e", "a.json"]

def Annal.kept : Resolver :=
  ⟨[(⟨"/docs/b.json"⟩, .mapping [("y", .mapping [("title", .string "Y")])])], some base⟩

end Resolver

end Schemata
