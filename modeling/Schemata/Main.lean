import Schemata.Command.Run

/-!
# The program

The program takes a picture of the files that a run may look at, carries the command line out on it,
and writes back what has changed. The picture shows the current directory, what arguments and links
name, and the places of settings. Only files that a run could read have their text in it.
-/

namespace Schemata.Program

def nameOf (path : String) : DiskName := (FilePath.pieces path).filter (· ≠ "")

def isBeneath (root name : DiskName) : Bool := root.isPrefixOf name

def outermost (names : List DiskName) : List DiskName :=
  let names := names.eraseDups
  names.filter fun n => !names.any fun m => m ≠ n && isBeneath m n

def waysTo (names : List DiskName) : List DiskName :=
  (names.flatMap fun n => (List.range n.length).tail.map n.take).eraseDups

def pathsIn (arguments : List String) : List String :=
  arguments.flatMap fun a => [a, String.ofList ((a.toList.dropWhile (· ≠ '=')).drop 1)]

def isSource (path : String) : Bool :=
  match Format.ofPath ⟨path⟩ with
  | .ok _ => true
  | .error _ => false

def readContent (path : String) : IO Content := do
  match String.fromUTF8? (← IO.FS.readBinFile path) with
  | some s => return .text s
  | none => return .binary

def target? (path : String) : IO (Option String) := do
  if path = "" then return none
  try
    return some (← IO.FS.realPath path).toString
  catch _ => return none

partial def itemsAt (name : DiskName) : IO (List (DiskName × DiskItem)) := do
  let path := (Disk.absolutePath name).text
  let some real ← target? path | return [(name, .link "")]
  if real ≠ path then return [(name, .link real)]
  let place ← IO.FS.realPath path
  if ← place.isDir then
    let entries ← try place.readDir catch _ => pure #[]
    let inner ← entries.toList.mapM fun e => itemsAt (name ++ [e.fileName])
    return (name, .directory) :: inner.flatten
  else if isSource path then
    return [(name, .file (← try readContent path catch _ => pure .binary))]
  else return [(name, .file .binary)]

/-- The items at some places, at the ends of links there, and on the way to them. -/
def picture (rounds : Nat) (names : List DiskName) : IO (List (DiskName × DiskItem)) := do
  let roots := outermost names
  let items := (← roots.mapM itemsAt).flatten
  let outside := items.filterMap fun e =>
    match e.2 with
    | .link text =>
      if text = "" || roots.any (isBeneath · (nameOf text)) then none else some (nameOf text)
    | _ => none
  match rounds, outside with
  | _, [] | 0, _ => return (waysTo roots).map (·, .directory) ++ items
  | rounds + 1, outside => picture rounds (roots ++ outside)

def withTexts (paths : List String) (items : List (DiskName × DiskItem)) :
    IO (List (DiskName × DiskItem)) := do
  let named := (← paths.mapM target?).filterMap (·.map nameOf)
  items.mapM fun e => do
    match e.2 with
    | .file .binary =>
      if named.contains e.1 then
        return (e.1, .file (← try readContent (Disk.absolutePath e.1).text catch _ => pure .binary))
      else return e
    | _ => return e

def diskOf (arguments : List String) (env : Environment) : IO Disk := do
  let current := nameOf (← IO.FS.realPath ".").toString
  let settings :=
    (Settings.places env).map (·.text) ++ (env.vars.lookup "ONTOREF_CONFIG").toList
  let paths := pathsIn arguments ++ settings
  let named := (← paths.mapM target?).filterMap (·.map nameOf)
  return ⟨← withTexts paths (← picture 8 (current :: named)), current⟩

def writeBack (before after : Disk) : IO Unit :=
  after.items.forM fun e =>
    if before.items.contains e then return
    else
      let path := (Disk.absolutePath e.1).text
      match e.2 with
      | .directory => IO.FS.createDirAll path
      | .file (.text s) => IO.FS.writeFile path s
      | _ => return

def readVariables : IO Variables := do
  let names := ["HOME", "XDG_CONFIG_HOME", "ONTOREF_CONFIG", "RUST_LOG", "ONTOREF_LOG_FORMAT",
    "ONTOREF_LOG_CONSOLE"]
  let found ← names.mapM fun name => do return (← IO.getEnv name).map (name, ·)
  return found.filterMap id

/-- The home directory of an account in the text of the user database, where each line is an entry
of fields between colons. -/
def homeIn? (users account : String) : Option String :=
  let entries := (users.splitOn "\n").map (·.splitOn ":")
  (entries.find? (·[2]? = some account)).bind (·[5]?)

/-- The number of the account that a process belongs to, by the text of its status. -/
def accountIn? (status : String) : Option String :=
  ((status.splitOn "\n").map (·.splitOn "\t")).findSome? fun fields =>
    if fields.head? = some "Uid:" then fields[1]? else none

def readEnvironment : IO Environment := do
  let onRecord ←
    try
      let account := accountIn? (← IO.FS.readFile "/proc/self/status")
      pure (account.bind (homeIn? (← IO.FS.readFile "/etc/passwd")))
    catch _ => pure none
  return .ofVariables (← readVariables) onRecord

end Schemata.Program

def main (arguments : List String) : IO UInt32 := do
  let env ← Schemata.Program.readEnvironment
  let d ← Schemata.Program.diskOf arguments env
  let o := Schemata.Command.run arguments env (← (← IO.getStdout).isTty) d
  Schemata.Program.writeBack d o.disk
  IO.print o.output
  IO.eprint o.errors
  return o.exitCode.toUInt32
