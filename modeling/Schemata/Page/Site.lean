import Schemata.Page.Catalog

/-!
# Writing the documentation

A site is the catalog and the pages of its schemas in one output directory. Two schemas with one
page path collide, and then nothing is written at all.
-/

namespace Schemata

structure SiteOptions where
  catalogFile : String
  catalog : CatalogOptions
deriving DecidableEq, Repr

def SiteOptions.standard : SiteOptions := ⟨"ontology-reference.md", .standard⟩

/-- The files of a site in the order of writing: the catalog, then the pages. -/
structure SiteReport where
  catalog : FilePath
  pages : List FilePath
deriving DecidableEq, Repr

inductive SiteError where
  | noDirectory (path : FilePath) (cause : DiskError)
  | notWritten (path : FilePath) (cause : DiskError)
  | collision (page : FilePath) (sources : List FilePath)
deriving DecidableEq, Repr

def SiteError.message : SiteError → String
  | noDirectory p cause => "Cannot create directory '" ++ p.text ++ "': " ++ cause.message
  | notWritten p cause => "Cannot write file '" ++ p.text ++ "': " ++ cause.message
  | collision page sources =>
    "Documents " ++ ", ".intercalate (sources.map fun p => "'" ++ p.text ++ "'")
      ++ " would all be written to '" ++ page.text ++ "'"

namespace Site

def sharing (ss : List Schema) (page : FilePath) : List Schema :=
  ss.filter (·.pagePath.same page)

/-- The first page, in the order of paths, that several schemas have, and these schemas. -/
def collision? (ss : List Schema) : Option SiteError :=
  let pages := (ss.map (·.pagePath)).mergeSort fun p q => (p.compare q).isLE
  (pages.find? fun p => (sharing ss p).length > 1).map fun p =>
    .collision p ((sharing ss p).map (·.path))

/-- Writes a file, and the directories above it first; those that could be made stay. -/
def writeFile (d : Disk) (p : FilePath) (text : String) : Except SiteError Unit × Disk :=
  match p.parent? with
  | none => write d
  | some parent =>
    match d.makeDirectories parent with
    | (.error e, d) => (.error (.noDirectory parent e), d)
    | (.ok (), d) => write d
where
  write (d : Disk) : Except SiteError Unit × Disk :=
    match d.writeText p text with
    | .ok d => (.ok (), d)
    | .error e => (.error (.notWritten p e), d)

/-- Writes files one after the other; the first failure is the last thing that happens. -/
def writeFiles (d : Disk) : List (FilePath × String) → Except SiteError Unit × Disk
  | [] => (.ok (), d)
  | (p, text) :: rest =>
    match writeFile d p text with
    | (.ok (), d) => writeFiles d rest
    | (.error e, d) => (.error e, d)

def files (o : SiteOptions) (out : FilePath) (ss : List Schema) : List (FilePath × String) :=
  (out.join ⟨o.catalogFile⟩, catalog o.catalog ss) ::
    ss.map fun s => (out.join s.pagePath, s.page)

end Site

/-- Writes the site of some schemas; the disk comes with the outcome. -/
def writeSite (o : SiteOptions) (out : FilePath) (ss : List Schema) (d : Disk) :
    Except SiteError SiteReport × Disk :=
  match Site.collision? ss with
  | some e => (.error e, d)
  | none =>
    match Site.writeFiles d (Site.files o out ss) with
    | (.ok (), d) => (.ok ⟨out.join ⟨o.catalogFile⟩, ss.map (out.join ·.pagePath)⟩, d)
    | (.error e, d) => (.error e, d)

end Schemata
