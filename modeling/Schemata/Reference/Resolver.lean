import Schemata.Reference.Reach

/-!
# Following references

A `Resolver` keeps the documents that it has read. `resolve` goes from a reference to the node that
it names, and on from there as long as that node is itself a reference. The chain of nodes visited
on the way holds no node twice; a repetition is reported as a cycle. A chain ends because every hop
visits a new node of the finitely many that it can reach.
-/

namespace Schemata

/-- Identifiers that begin with `base` name files beneath `root`. -/
structure IdBase where
  base : String
  root : FilePath
deriving DecidableEq, Repr

structure Resolver where
  cache : List (FilePath × Tree)
  idBase : Option IdBase
deriving Repr, Inhabited

/-- The node that a reference leads to. -/
structure Target where
  key : ResolutionKey
  value : Tree
deriving Repr

namespace Resolver

def empty : Resolver := ⟨[], none⟩

def withIdBase (base : String) (root : FilePath) : Resolver := ⟨[], some ⟨base, root⟩⟩

def cached? (r : Resolver) (file : FilePath) : Option Tree :=
  (r.cache.find? (·.1.same file)).map (·.2)

def put (r : Resolver) (file : FilePath) (t : Tree) : Resolver :=
  if r.cache.any (·.1.same file) then
    { r with cache := r.cache.map fun e => if e.1.same file then (e.1, t) else e }
  else { r with cache := r.cache ++ [(file, t)] }

def insertDocument (r : Resolver) (d : Disk) (path : FilePath) (t : Tree) : Resolver :=
  r.put (d.canonicalOrGiven path) t

def cacheSize (r : Resolver) : Nat := r.cache.length

/-- The text names a place in a network. -/
def isRemote : List Char → Bool
  | ':' :: '/' :: '/' :: _ => true
  | _ :: cs => isRemote cs
  | [] => false

/-- The path that a target names: beneath the root of its identifier base, or next to the file that
refers to it. -/
def candidate (idBase : Option IdBase) (target : String) (origin : FilePath) :
    Except Unresolved FilePath :=
  match idBase.bind fun b =>
      if target.startsWith b.base then
        some (b.root.join ⟨String.ofList (target.toList.drop b.base.length)⟩)
      else none with
  | some p => .ok p
  | none =>
    if isRemote target.toList then .error .remote
    else
      match origin.parent? with
      | some dir => .ok (dir.join ⟨target⟩)
      | none => .ok ⟨target⟩

def locate (idBase : Option IdBase) (d : Disk) (target : String) (origin : FilePath) :
    Except Unresolved FilePath :=
  match candidate idBase target origin with
  | .error e => .error e
  | .ok p =>
    match d.canonical p with
    | .ok q => .ok q
    | .error e => .error (.cannotOpen p e)

/-- The node that a reference names in the file `origin`. -/
def keyOf (idBase : Option IdBase) (d : Disk) (raw : String) (origin : FilePath) :
    Except Unresolved ResolutionKey :=
  match Reference.parse raw with
  | .fragment pointer => .ok ⟨origin, pointer⟩
  | .external target pointer =>
    match locate idBase d target origin with
    | .ok file => .ok ⟨file, pointer⟩
    | .error e => .error e

theorem locate_eq_ok {idBase : Option IdBase} {d : Disk} {target : String}
    {origin file : FilePath} : locate idBase d target origin = .ok file ↔
      ∃ p, candidate idBase target origin = .ok p ∧ d.canonical p = .ok file := by
  unfold locate
  cases candidate idBase target origin with
  | error e => simp
  | ok p => cases hc : d.canonical p <;> simp [hc]

theorem keyOf_eq_ok {idBase : Option IdBase} {d : Disk} {raw : String} {origin : FilePath}
    {key : ResolutionKey} : keyOf idBase d raw origin = .ok key ↔
      Reference.parse raw = .fragment key.pointer ∧ origin = key.file ∨
        ∃ target, Reference.parse raw = .external target key.pointer ∧
          locate idBase d target origin = .ok key.file := by
  obtain ⟨file, pointer⟩ := key
  unfold keyOf
  cases Reference.parse raw with
  | fragment pointer' => simp [and_comm]
  | external target pointer' =>
    simp only [reduceCtorEq, false_and, false_or, Reference.external.injEq, and_assoc,
      exists_eq_left']
    cases locate idBase d target origin <;> simp [and_comm]

/-- A reference stays in its file or leads to one that exists. -/
theorem file_of_keyOf {idBase : Option IdBase} {d : Disk} {raw : String} {origin : FilePath}
    {key : ResolutionKey} (h : keyOf idBase d raw origin = .ok key) :
    key.file = origin ∨ ∃ p, d.canonical p = .ok key.file := by
  obtain ⟨-, rfl⟩ | ⟨target, -, hl⟩ := keyOf_eq_ok.1 h
  · exact .inl rfl
  · obtain ⟨p, -, hc⟩ := locate_eq_ok.1 hl
    exact .inr ⟨p, hc⟩

/-- The document of a file: the one kept, or the one read from the disk. -/
def document (r : Resolver) (d : Disk) (file : FilePath) : Except FileError Tree :=
  match r.cached? file with
  | some t => .ok t
  | none => Tree.load d file

/-- Keeps a document under its file unless there is one already. -/
def keep (r : Resolver) (file : FilePath) (t : Tree) : Resolver :=
  if (r.cached? file).isSome then r else r.put file t

def reachFiles (d : Disk) (origin : FilePath) : List FilePath :=
  origin :: d.places.map Disk.absolutePath

def reachTrees (r : Resolver) (d : Disk) (origin : FilePath) : List Tree :=
  r.cache.map (·.2) ++ (reachFiles d origin).filterMap fun f => (Tree.load d f).toOption

def reachReferences (r : Resolver) (d : Disk) (raw : String) (origin : FilePath) : List String :=
  raw :: (reachTrees r d origin).flatMap Tree.references

def reachKeys (r : Resolver) (d : Disk) (raw : String) (origin : FilePath) :
    List ResolutionKey :=
  (reachFiles d origin).flatMap fun f =>
    (reachReferences r d raw origin).map fun s => ⟨f, (Reference.parse s).pointer⟩

/-- A hop of the chain that starts at `raw₀` in `origin₀`: its reference, file and documents are
among those in reach. -/
structure InReach (r₀ : Resolver) (d : Disk) (raw₀ : String) (origin₀ : FilePath)
    (r : Resolver) (raw : String) (origin : FilePath) : Prop where
  file_mem : origin ∈ reachFiles d origin₀
  raw_mem : raw ∈ reachReferences r₀ d raw₀ origin₀
  cache_mem : ∀ e ∈ r.cache, e.2 ∈ reachTrees r₀ d origin₀

namespace InReach

variable {r₀ r : Resolver} {d : Disk} {raw₀ raw : String} {origin₀ origin : FilePath}

theorem start (r : Resolver) (d : Disk) (raw : String) (origin : FilePath) :
    InReach r d raw origin r raw origin where
  file_mem := List.mem_cons_self
  raw_mem := List.mem_cons_self
  cache_mem := fun _ h => List.mem_append_left _ (List.mem_map_of_mem h)

theorem key_file_mem (h : InReach r₀ d raw₀ origin₀ r raw origin) {key : ResolutionKey}
    (hk : keyOf r.idBase d raw origin = .ok key) : key.file ∈ reachFiles d origin₀ := by
  obtain he | ⟨p, hc⟩ := file_of_keyOf hk
  · exact he ▸ h.file_mem
  · exact List.mem_cons_of_mem _ (Disk.canonical_mem_places hc)

theorem key_mem (h : InReach r₀ d raw₀ origin₀ r raw origin) {key : ResolutionKey}
    (hk : keyOf r.idBase d raw origin = .ok key) : key ∈ reachKeys r₀ d raw₀ origin₀ := by
  refine List.mem_flatMap.2 ⟨key.file, h.key_file_mem hk, List.mem_map.2 ⟨raw, h.raw_mem, ?_⟩⟩
  obtain ⟨hp, -⟩ | ⟨target, hp, -⟩ := keyOf_eq_ok.1 hk <;> rw [hp, Reference.pointer]

theorem document_mem (h : InReach r₀ d raw₀ origin₀ r raw origin) {file : FilePath} {t : Tree}
    (hf : file ∈ reachFiles d origin₀) (ht : r.document d file = .ok t) :
    t ∈ reachTrees r₀ d origin₀ := by
  unfold document at ht
  split at ht
  · rename_i u hu
    cases ht
    obtain ⟨e, he, rfl⟩ := Option.map_eq_some_iff.1 hu
    exact h.cache_mem e (List.mem_of_find?_eq_some he)
  · exact List.mem_append_right _
      (List.mem_filterMap.2 ⟨file, hf, by simp [ht, Except.toOption]⟩)

theorem mem_put {file : FilePath} {t : Tree} {e : FilePath × Tree} (h : e ∈ (r.put file t).cache) :
    e.2 = t ∨ e ∈ r.cache := by
  unfold put at h
  split at h
  · obtain ⟨e', he', rfl⟩ := List.mem_map.1 h
    split
    · exact .inl rfl
    · exact .inr he'
  · rcases List.mem_append.1 h with h | h
    · exact .inr h
    · simp at h; exact .inl (by rw [h])

theorem next (h : InReach r₀ d raw₀ origin₀ r raw origin) {key : ResolutionKey} {t u : Tree}
    {raw' : String} (hk : keyOf r.idBase d raw origin = .ok key)
    (ht : r.document d key.file = .ok t) (hu : Pointer.resolve t key.pointer = .ok u)
    (hr : u.reference? = some raw') :
    InReach r₀ d raw₀ origin₀ (r.keep key.file t) raw' key.file where
  file_mem := h.key_file_mem hk
  raw_mem := List.mem_cons_of_mem _ (List.mem_flatMap.2
    ⟨t, h.document_mem (h.key_file_mem hk) ht,
      Pointer.references_resolve hu (Tree.mem_references_of_reference? hr)⟩)
  cache_mem := by
    intro e he
    unfold keep at he
    split at he
    · exact h.cache_mem e he
    · rcases mem_put he with h' | h'
      · rw [h']; exact h.document_mem (h.key_file_mem hk) ht
      · exact h.cache_mem e h'

end InReach

def unvisited (visited : List ResolutionKey) (key : ResolutionKey) : Bool :=
  !visited.any (·.same key)

theorem unvisited_countP_lt {keys visited : List ResolutionKey} {key : ResolutionKey}
    (h : key ∈ keys) (hv : unvisited visited key = true) :
    keys.countP (unvisited (visited ++ [key])) < keys.countP (unvisited visited) := by
  have drop : ∀ k, unvisited (visited ++ [key]) k = true → unvisited visited k = true := by
    intro k hk
    simp only [unvisited, List.any_append, Bool.not_or, Bool.and_eq_true] at hk
    exact hk.1
  have gone : unvisited (visited ++ [key]) key = false := by
    simp [unvisited, ResolutionKey.same, FilePath.same]
  induction keys with
  | nil => cases h
  | cons k ks ih =>
    rw [List.countP_cons, List.countP_cons]
    cases h with
    | head =>
      have := List.countP_mono_left (l := ks) (fun x _ => drop x)
      simp only [gone, hv]
      simp only [Bool.false_eq_true, if_false, if_true]
      omega
    | tail _ h =>
      have := ih h
      have : unvisited (visited ++ [key]) k = true → unvisited visited k = true := drop k
      split <;> split <;> first | omega | simp_all

/-- Follows a chain of references through nodes not in `visited`. The resolver comes with the
outcome, since a document once read is kept also when its pointer leads nowhere. -/
def follow (d : Disk) (r₀ : Resolver) (raw₀ : String) (origin₀ : FilePath) (r : Resolver)
    (raw : String) (origin : FilePath) (visited : List ResolutionKey)
    (h : InReach r₀ d raw₀ origin₀ r raw origin) : Except LoadError Target × Resolver :=
  match hk : keyOf r.idBase d raw origin with
  | .error e => (.error (.unresolved raw origin e), r)
  | .ok key =>
    if _hv : unvisited visited key then
      match ht : r.document d key.file with
      | .error e => (.error (.unresolved raw origin (.notLoaded e)), r)
      | .ok t =>
        match hu : Pointer.resolve t key.pointer with
        | .error e => (.error (.unresolved raw origin (.pointer e)), r.keep key.file t)
        | .ok u =>
          match hr : u.reference? with
          | none => (.ok ⟨key, u⟩, r.keep key.file t)
          | some raw' =>
            follow d r₀ raw₀ origin₀ (r.keep key.file t) raw' key.file (visited ++ [key])
              (h.next hk ht hu hr)
    else (.error (.cyclic (visited ++ [key])), r)
termination_by (reachKeys r₀ d raw₀ origin₀).countP (unvisited visited)
decreasing_by exact unvisited_countP_lt (h.key_mem hk) _hv

/-- Goes from a reference written in a file to the node that it leads to. -/
def resolveIn (r : Resolver) (d : Disk) (raw : String) (file : FilePath) :
    Except LoadError Target × Resolver :=
  follow d r raw file r raw file [] (.start r d raw file)

def resolve (r : Resolver) (d : Disk) (raw : String) (stack : ResolutionStack) :
    Except LoadError Target × Resolver :=
  r.resolveIn d raw stack.currentFile

end Resolver

end Schemata
