import Schemata.File.Disk

/-!
# Finding schema files

The schema files beneath a directory are the files in it and in its subdirectories whose names have
a given ending. A link is followed for the directory itself and nowhere beneath it.
-/

namespace Schemata

inductive DiscoveryError where
  | notFound (root : FilePath)
  | notADirectory (root : FilePath)
deriving DecidableEq, Repr

def DiscoveryError.message : DiscoveryError → String
  | notFound p => "Input directory '" ++ p.text ++ "' does not exist"
  | notADirectory p => "Input path '" ++ p.text ++ "' is not a directory"

/-- The ending of schema files. -/
def standardSuffix : String := ".schema.yaml"

namespace Disk

def beneath? (dir name : DiskName) : Option DiskName :=
  if dir.isPrefixOf name && dir.length < name.length then some (name.drop dir.length) else none

def isFile : DiskItem → Bool
  | .file _ => true
  | _ => false

/-- The path of something beneath a directory. -/
def pathBeneath (root : FilePath) (way : DiskName) : FilePath :=
  way.foldl (fun p name => p.join ⟨name⟩) root

/-- The files beneath a directory whose names have an ending, in the order of their paths. -/
def discover (d : Disk) (root : FilePath) (suffix : String) :
    Except DiscoveryError (List FilePath) :=
  match d.find root true with
  | .error _ => .error (.notFound root)
  | .ok (dir, .directory) =>
    let ways := d.items.filterMap fun e =>
      (beneath? dir e.1).filter fun way =>
        isFile e.2 && (way.getLast?.any fun name => suffix.toList.isSuffixOf name.toList)
    .ok ((ways.map (pathBeneath root)).mergeSort fun p q => (p.compare q).isLE)
  | .ok _ => .error (.notADirectory root)

end Disk

end Schemata
