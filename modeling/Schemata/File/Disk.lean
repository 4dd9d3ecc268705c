import Schemata.File.Path

/-!
# Files as a value

A `Disk` holds files, directories and symbolic links under their absolute names, and the directory
that relative paths start from. Names are looked up part by part and links are followed on the way,
at most forty of them. A file's content is text, or binary when its bytes are none.
-/

namespace Schemata

inductive Content where
  | text (s : String)
  | binary
deriving DecidableEq, Repr, Inhabited

inductive DiskItem where
  | file (content : Content)
  | directory
  | link (target : String)
deriving DecidableEq, Repr, Inhabited

inductive DiskError where
  | notFound
  | exists
  | notADirectory
  | isADirectory
  | tooManyLinks
  | nameTooLong
  | nulInName
  | notText
deriving DecidableEq, Repr

def DiskError.message : DiskError → String
  | notFound => "No such file or directory (os error 2)"
  | .exists => "File exists (os error 17)"
  | notADirectory => "Not a directory (os error 20)"
  | isADirectory => "Is a directory (os error 21)"
  | tooManyLinks => "Too many levels of symbolic links (os error 40)"
  | nameTooLong => "File name too long (os error 36)"
  | nulInName => "file name contained an unexpected NUL byte"
  | notText => "stream did not contain valid UTF-8"

/-- The names on the way from the root. -/
abbrev DiskName := List String

structure Disk where
  items : List (DiskName × DiskItem)
  current : DiskName
deriving Repr, Inhabited

namespace Disk

def item? (d : Disk) (name : DiskName) : Option DiskItem :=
  if name = [] then some .directory else d.items.lookup name

/-- Sets an item: a known one keeps its place, a new one goes last. -/
def setItem (d : Disk) (name : DiskName) (item : DiskItem) : Disk :=
  if d.items.any (·.1 = name) then
    { d with items := d.items.map fun e => if e.1 = name then (name, item) else e }
  else { d with items := d.items ++ [(name, item)] }

def maxLinks : Nat := 40

/-- The steps that a path asks for. A slash at the end is a step without a name: it stays in place
and so demands a directory. -/
def steps (text : String) : List String :=
  let ps := FilePath.pieces text
  ps.filter (· ≠ "") ++ if ps.getLast? = some "" then [""] else []

def linkLength : DiskItem → Nat
  | .link target => (steps target).length
  | _ => 0

/-- No link asks for more steps. -/
def linkBound (d : Disk) : Nat := d.items.foldr (fun e n => linkLength e.2 + n) 0

theorem mem_items_of_item? {d : Disk} {name : DiskName} {item : DiskItem}
    (h : d.item? name = some item) (hn : name ≠ []) : (name, item) ∈ d.items := by
  rw [item?, if_neg hn, List.lookup_eq_some_iff] at h
  obtain ⟨before, after, he, _⟩ := h
  rw [he]
  exact List.mem_append_right before List.mem_cons_self

theorem linkLength_le_linkBound {d : Disk} {name : DiskName} {item : DiskItem}
    (h : d.item? name = some item) (hn : name ≠ []) : linkLength item ≤ d.linkBound := by
  have hm := mem_items_of_item? h hn
  unfold linkBound
  generalize d.items = es at hm
  induction es with
  | nil => cases hm
  | cons e es ih =>
    rw [List.foldr_cons]
    cases hm with
    | head => exact Nat.le_add_right _ _
    | tail _ hm => exact Nat.le_trans (ih hm) (Nat.le_add_left _ _)

/-- Walks from a directory. A link at the end is followed if `last` says so. -/
def walk (d : Disk) (followLast : Bool) (links : Nat) (dir : DiskName) (todo : List String) :
    Except DiskError (DiskName × DiskItem) :=
  match todo with
  | [] => .ok (dir, .directory)
  | step :: rest =>
    if step = "." || step = "" then walk d followLast links dir rest
    else if step = ".." then walk d followLast links dir.dropLast rest
    else if step.utf8ByteSize > 255 then .error .nameTooLong
    else
      match _hi : d.item? (dir ++ [step]) with
      | none => .error .notFound
      | some .directory => walk d followLast links (dir ++ [step]) rest
      | some (.file content) =>
        if rest.isEmpty then .ok (dir ++ [step], .file content) else .error .notADirectory
      | some (.link target) =>
        if rest.isEmpty && !followLast then .ok (dir ++ [step], .link target)
        else
          match links with
          | 0 => .error .tooManyLinks
          | links + 1 =>
            if target = "" then .error .notFound
            else
              walk d followLast links (if target.startsWith "/" then [] else dir)
                (steps target ++ rest)
termination_by links * d.linkBound + todo.length
decreasing_by
  all_goals simp only [List.length_cons, List.length_append]
  · omega
  · omega
  · omega
  · have := linkLength_le_linkBound _hi (by simp)
    simp only [linkLength] at this
    rw [Nat.succ_mul]
    omega

def find (d : Disk) (p : FilePath) (followLast : Bool) : Except DiskError (DiskName × DiskItem) :=
  if p.text.toList.contains (Char.ofNat 0) then .error .nulInName
  else if p.text = "" then .error .notFound
  else if p.text.utf8ByteSize ≥ 4096 then .error .nameTooLong
  else d.walk followLast maxLinks (if p.isAbsolute then [] else d.current) (steps p.text)

def absolutePath (name : DiskName) : FilePath := ⟨"/" ++ "/".intercalate name⟩

/-- The absolute path without links of something that exists. A path is resolved name by name here,
so that its own length does not count; that of the result does. -/
def canonical (d : Disk) (p : FilePath) : Except DiskError FilePath :=
  if p.text.toList.contains (Char.ofNat 0) then .error .nulInName
  else if p.text = "" then .error .notFound
  else
    match d.walk true maxLinks (if p.isAbsolute then [] else d.current) (steps p.text) with
    | .ok (name, _) =>
      if (absolutePath name).text.utf8ByteSize ≥ 4096 then .error .nameTooLong
      else .ok (absolutePath name)
    | .error e => .error e

/-- The absolute path without links, or the path as given where nothing is found. -/
def canonicalOrGiven (d : Disk) (p : FilePath) : FilePath :=
  match d.canonical p with
  | .ok q => q
  | .error _ => p

def «exists» (d : Disk) (p : FilePath) : Bool := (d.find p true).toOption.isSome

def isDirectory (d : Disk) (p : FilePath) : Bool :=
  match d.find p true with
  | .ok (_, .directory) => true
  | _ => false

def readText (d : Disk) (p : FilePath) : Except DiskError String :=
  match d.find p true with
  | .ok (_, .file (.text s)) => .ok s
  | .ok (_, .file .binary) => .error .notText
  | .ok (_, _) => .error .isADirectory
  | .error e => .error e

def makeDirectory (d : Disk) (p : FilePath) : Except DiskError Disk :=
  match d.find p false with
  | .ok _ => .error .exists
  | .error .notFound =>
    let todo := (steps p.text).reverse.dropWhile (· = "")
    match todo with
    | [] => .error .notFound
    | last :: before =>
      if last = "." || last = ".." then .error .notFound
      else
        match d.walk true maxLinks (if p.isAbsolute then [] else d.current) before.reverse with
        | .ok (dir, .directory) =>
          if (d.item? (dir ++ [last])).isSome then .error .exists
          else .ok (d.setItem (dir ++ [last]) .directory)
        | .ok _ => .error .notADirectory
        | .error e => .error e
  | .error e => .error e

/-- Makes a directory and what is missing above it, for a path of so many parts. Where that fails,
the directories made so far stay. -/
def makeDirectoriesAt : Nat → Disk → FilePath → Except DiskError Unit × Disk
  | fuel, d, p =>
    if p.text = "" then (.ok (), d)
    else
      match d.makeDirectory p with
      | .ok d => (.ok (), d)
      | .error .notFound =>
        match fuel, p.parent? with
        | fuel + 1, some q =>
          match makeDirectoriesAt fuel d q with
          | (.error e, d) => (.error e, d)
          | (.ok (), d) =>
            match d.makeDirectory p with
            | .ok d => (.ok (), d)
            | .error e => (if d.isDirectory p then .ok () else .error e, d)
        | _, _ => (.error .notFound, d)
      | .error e => (if d.isDirectory p then .ok () else .error e, d)

def makeDirectories (d : Disk) (p : FilePath) : Except DiskError Unit × Disk :=
  makeDirectoriesAt p.parts.length d p

/-- Walks from a directory to the file that the steps lead to, or would lead to if it were there,
through all links. A slash at the end asks for a directory, whatever stands there. -/
def place (d : Disk) (links : Nat) (dir : DiskName) (todo : List String) :
    Except DiskError DiskName :=
  match todo with
  | [] => .error .isADirectory
  | step :: rest =>
    if step = "." || step = "" then place d links dir rest
    else if step = ".." then place d links dir.dropLast rest
    else if rest = [""] then .error .isADirectory
    else if step.utf8ByteSize > 255 then .error .nameTooLong
    else
      match _hi : d.item? (dir ++ [step]) with
      | none => if rest.isEmpty then .ok (dir ++ [step]) else .error .notFound
      | some .directory => place d links (dir ++ [step]) rest
      | some (.file _) => if rest.isEmpty then .ok (dir ++ [step]) else .error .notADirectory
      | some (.link target) =>
        match links with
        | 0 => .error .tooManyLinks
        | links + 1 =>
          if target = "" then .error .notFound
          else place d links (if target.startsWith "/" then [] else dir) (steps target ++ rest)
termination_by links * d.linkBound + todo.length
decreasing_by
  all_goals simp only [List.length_cons, List.length_append]
  · omega
  · omega
  · omega
  · have := linkLength_le_linkBound _hi (by simp)
    simp only [linkLength] at this
    rw [Nat.succ_mul]
    omega

def writeText (d : Disk) (p : FilePath) (text : String) : Except DiskError Disk :=
  if p.text.toList.contains (Char.ofNat 0) then .error .nulInName
  else if p.text = "" then .error .notFound
  else if p.text.utf8ByteSize ≥ 4096 then .error .nameTooLong
  else
    match d.place maxLinks (if p.isAbsolute then [] else d.current) (steps p.text) with
    | .ok name => .ok (d.setItem name (.file (.text text)))
    | .error e => .error e

end Disk

end Schemata
