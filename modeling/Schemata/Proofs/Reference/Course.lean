import Schemata.Proofs.Reference.View

/-!
# The course of a reference

`Follows` tells what comes of a reference by the documents of the files alone, without the resolver
that keeps them. The course is unique, so that resolvers that agree on the documents agree on what
comes of every reference. A course that succeeds from a file succeeds from its plain spelling too.
-/

namespace Schemata

namespace Resolver

/-- What comes of following a reference through nodes not in `visited`. -/
inductive Follows (idBase : Option IdBase) (d : Disk) (look : FilePath → Except FileError Tree) :
    String → FilePath → List ResolutionKey → Except LoadError Target → Prop
  | astray {raw origin visited e} (hk : keyOf idBase d raw origin = .error e) :
    Follows idBase d look raw origin visited (.error (.unresolved raw origin e))
  | again {raw origin visited key} (hk : keyOf idBase d raw origin = .ok key)
    (hv : unvisited visited key = false) :
    Follows idBase d look raw origin visited (.error (.cyclic (visited ++ [key])))
  | unread {raw origin visited key e} (hk : keyOf idBase d raw origin = .ok key)
    (hv : unvisited visited key = true) (ht : look key.file = .error e) :
    Follows idBase d look raw origin visited (.error (.unresolved raw origin (.notLoaded e)))
  | lost {raw origin visited key t e} (hk : keyOf idBase d raw origin = .ok key)
    (hv : unvisited visited key = true) (ht : look key.file = .ok t)
    (hu : Pointer.resolve t key.pointer = .error e) :
    Follows idBase d look raw origin visited (.error (.unresolved raw origin (.pointer e)))
  | arrives {raw origin visited key t u} (hk : keyOf idBase d raw origin = .ok key)
    (hv : unvisited visited key = true) (ht : look key.file = .ok t)
    (hu : Pointer.resolve t key.pointer = .ok u) (hr : u.reference? = none) :
    Follows idBase d look raw origin visited (.ok ⟨key, u⟩)
  | passes {raw origin visited key t u raw' o} (hk : keyOf idBase d raw origin = .ok key)
    (hv : unvisited visited key = true) (ht : look key.file = .ok t)
    (hu : Pointer.resolve t key.pointer = .ok u) (hr : u.reference? = some raw')
    (next : Follows idBase d look raw' key.file (visited ++ [key]) o) :
    Follows idBase d look raw origin visited o

variable {d : Disk} {scope : FilePath → Prop} {r r₀ : Resolver} {idBase : Option IdBase}
  {look : FilePath → Except FileError Tree} {raw raw₀ : String} {origin origin₀ : FilePath}
  {visited : List ResolutionKey} {o o' : Except LoadError Target}

theorem Follows.unique (h : Follows idBase d look raw origin visited o)
    (h' : Follows idBase d look raw origin visited o') : o = o' := by
  -- both courses read the same documents, so that the same rule applies to both at every node
  induction h <;> cases h' <;> grind

theorem key_file_of_keyOf (hc : Closed d scope r) (ho : scope origin) {key : ResolutionKey}
    (hk : keyOf idBase d raw origin = .ok key) : scope key.file := by
  obtain he | ⟨p, hp⟩ := file_of_keyOf hk
  · exact he ▸ ho
  · exact hc.canonical hp

/-- A resolver follows references as the documents say that it agrees on with another one. -/
theorem follow_spec (hc : Closed d scope r₀) (ha : Agrees d scope r₀ r)
    (ho : ∀ key, keyOf r₀.idBase d raw origin = .ok key → scope key.file)
    {r₁ : Resolver} (h : InReach r₁ d raw₀ origin₀ r raw origin) :
    Follows r₀.idBase d (r₀.document d) raw origin visited
        (follow d r₁ raw₀ origin₀ r raw origin visited h).1 ∧
      Agrees d scope r₀ (follow d r₁ raw₀ origin₀ r raw origin visited h).2 := by
  fun_induction follow d r₁ raw₀ origin₀ r raw origin visited h with
  | case1 r raw origin visited h e hk =>
    rw [ha.idBase] at hk
    exact ⟨.astray hk, ha⟩
  | case2 r raw origin visited h key hk hv e ht =>
    rw [ha.idBase] at hk
    rw [ha.document _ (ho key hk)] at ht
    exact ⟨.unread hk hv ht, ha⟩
  | case3 r raw origin visited h key hk hv t ht e hu =>
    rw [ha.idBase] at hk
    have hf := ho key hk
    have hkeep := ha.trans (.keep (hc.of_agrees ha) hf ht)
    rw [ha.document _ hf] at ht
    exact ⟨.lost hk hv ht hu, hkeep⟩
  | case4 r raw origin visited h key hk hv t ht u hu hr =>
    rw [ha.idBase] at hk
    have hf := ho key hk
    have hkeep := ha.trans (.keep (hc.of_agrees ha) hf ht)
    rw [ha.document _ hf] at ht
    exact ⟨.arrives hk hv ht hu hr, hkeep⟩
  | case5 r raw origin visited h key hk hv t ht u hu raw' hr ih =>
    rw [ha.idBase] at hk
    have hf := ho key hk
    obtain ⟨hnext, hlast⟩ :=
      ih (ha.trans (.keep (hc.of_agrees ha) hf ht)) fun _ => key_file_of_keyOf hc hf
    rw [ha.document _ hf] at ht
    exact ⟨.passes hk hv ht hu hr hnext, hlast⟩
  | case6 r raw origin visited h key hk hv =>
    rw [ha.idBase] at hk
    exact ⟨.again hk (by simpa using hv), ha⟩

theorem resolveIn_follows (hc : Closed d scope r₀) (ha : Agrees d scope r₀ r) (ho : scope origin)
    (raw : String) : Follows r₀.idBase d (r₀.document d) raw origin []
      (r.resolveIn d raw origin).1 :=
  (follow_spec hc ha (fun _ => key_file_of_keyOf hc ho) _).1

/-- Following a reference leaves what the resolver sees as it was. -/
theorem agrees_resolveIn (hc : Closed d scope r₀) (ha : Agrees d scope r₀ r) (ho : scope origin)
    (raw : String) : Agrees d scope r₀ (r.resolveIn d raw origin).2 :=
  (follow_spec hc ha (fun _ => key_file_of_keyOf hc ho) _).2

theorem resolveIn_eq_iff (hc : Closed d scope r) (ho : scope origin) :
    (r.resolveIn d raw origin).1 = o ↔ Follows r.idBase d (r.document d) raw origin [] o := by
  have h := resolveIn_follows hc (.refl d scope r) ho raw
  exact ⟨fun he => he ▸ h, fun h' => h.unique h'⟩

/-- Resolvers that agree on the documents lead a reference to the same node if its first file is
one that they agree on. -/
theorem resolveIn_congr_of_key (hc : Closed d scope r₀) (ha : Agrees d scope r₀ r)
    (ho : ∀ key, keyOf r₀.idBase d raw origin = .ok key → scope key.file) :
    (r.resolveIn d raw origin).1 = (r₀.resolveIn d raw origin).1 :=
  (follow_spec hc ha ho (.start r d raw origin)).1.unique
    (follow_spec hc (.refl d scope r₀) ho (.start r₀ d raw origin)).1

theorem resolveIn_congr (hc : Closed d scope r₀) (ha : Agrees d scope r₀ r) (ho : scope origin)
    (raw : String) : (r.resolveIn d raw origin).1 = (r₀.resolveIn d raw origin).1 :=
  resolveIn_congr_of_key hc ha fun _ => key_file_of_keyOf hc ho

theorem Follows.file_mem (hc : Closed d scope r) (ho : scope origin) {target : Target}
    (h : Follows idBase d look raw origin visited (.ok target)) : scope target.key.file := by
  generalize he : (.ok target : Except LoadError Target) = o at h
  induction h with
  | arrives hk =>
    cases he
    exact key_file_of_keyOf hc ho hk
  | passes hk _ _ _ _ _ ih => exact ih (key_file_of_keyOf hc ho hk) he
  | _ => cases he

/-- A target is the node at its key. -/
theorem Follows.value {target : Target}
    (h : Follows idBase d look raw origin visited (.ok target)) :
    ∃ t, look target.key.file = .ok t ∧
      Pointer.resolve t target.key.pointer = .ok target.value := by
  generalize he : (.ok target : Except LoadError Target) = o at h
  induction h with
  | arrives _ _ ht hu =>
    cases he
    exact ⟨_, ht, hu⟩
  | passes _ _ _ _ _ _ ih => exact ih he
  | _ => cases he

/-- A course that breaks off does so as one of a reference, whatever was wrong with its file. -/
theorem Follows.isReference {e : LoadError}
    (h : Follows idBase d look raw origin visited (.error e)) : e.isReference := by
  generalize he : (.error e : Except LoadError Target) = o at h
  induction h with
  | passes _ _ _ _ _ _ ih => exact ih he
  | arrives => cases he
  | _ =>
    cases he
    rfl

end Resolver

namespace ResolutionKey

def plain (k : ResolutionKey) : ResolutionKey := { k with file := k.file.plain }

@[simp] theorem plain_plain (k : ResolutionKey) : k.plain.plain = k.plain := by
  rw [plain, plain, FilePath.plain_plain]

theorem same_iff_plain {k l : ResolutionKey} : k.same l ↔ k.plain = l.plain := by
  simp [same, plain, FilePath.same_iff_plain]

end ResolutionKey

def Target.plain (a : Target) : Target := { a with key := a.key.plain }

namespace Resolver

variable {d : Disk} {scope : FilePath → Prop} {r : Resolver} {idBase : Option IdBase}
  {look : FilePath → Except FileError Tree} {raw : String} {origin : FilePath}
  {visited : List ResolutionKey} {o : Except LoadError Target}

theorem unvisited_plain (visited : List ResolutionKey) (key : ResolutionKey) :
    unvisited (visited.map ResolutionKey.plain) key.plain = unvisited visited key := by
  rw [unvisited, unvisited, List.any_map]
  congr 2
  funext k
  rw [Function.comp_apply, Bool.eq_iff_iff, ResolutionKey.same_iff_plain,
    ResolutionKey.same_iff_plain, ResolutionKey.plain_plain, ResolutionKey.plain_plain]

theorem locate_plain {target : String} {file : FilePath} :
    locate idBase d target origin.plain = .ok file ↔ locate idBase d target origin = .ok file := by
  rw [locate_eq_ok, locate_eq_ok]
  unfold candidate
  split
  · rfl
  · split
    · rfl
    · rw [FilePath.parent?_plain]
      cases hp : origin.parent? with
      | none => rfl
      | some above =>
        simp only [Option.map_some, Except.ok.injEq, exists_eq_left']
        exact Disk.canonical_join_plain (FilePath.tight_of_parent? hp)

theorem keyOf_respell {origin' : FilePath} (hs : origin'.plain = origin.plain)
    {key : ResolutionKey} (h : keyOf idBase d raw origin = .ok key) :
    ∃ key', keyOf idBase d raw origin' = .ok key' ∧ key'.plain = key.plain := by
  obtain ⟨hr, rfl⟩ | ⟨target, hr, hl⟩ := keyOf_eq_ok.1 h
  · refine ⟨⟨origin', key.pointer⟩, keyOf_eq_ok.2 (.inl ⟨hr, rfl⟩), ?_⟩
    rw [ResolutionKey.plain, ResolutionKey.plain, hs]
  · have hl' := locate_plain.2 hl
    rw [← hs] at hl'
    exact ⟨key, keyOf_eq_ok.2 (.inr ⟨target, hr, locate_plain.1 hl'⟩), rfl⟩

theorem unvisited_respell {visited' : List ResolutionKey} {key key' : ResolutionKey}
    (hv : visited'.map ResolutionKey.plain = visited.map ResolutionKey.plain)
    (hk : key'.plain = key.plain) : unvisited visited' key' = unvisited visited key := by
  rw [← unvisited_plain, hv, hk, unvisited_plain]

/-- The course of a reference from one spelling of a file is the course from any other. -/
theorem Follows.respell (hc : Closed d scope r) {origin' : FilePath}
    {visited' : List ResolutionKey} (ho : scope origin) (ho' : scope origin')
    (hs : origin'.plain = origin.plain)
    (hv : visited'.map ResolutionKey.plain = visited.map ResolutionKey.plain)
    (h : Follows r.idBase d (r.document d) raw origin visited o) :
    (∀ a, o = .ok a → ∃ a',
      Follows r.idBase d (r.document d) raw origin' visited' (.ok a') ∧ a'.plain = a.plain) ∧
    ∀ chain, o = .error (.cyclic chain) → ∃ chain',
      Follows r.idBase d (r.document d) raw origin' visited' (.error (.cyclic chain')) := by
  have look {key key' : ResolutionKey} {t : Tree} (hf : scope key.file) (hf' : scope key'.file)
      (hk : key'.plain = key.plain) (ht : r.document d key.file = .ok t) :
      r.document d key'.file = .ok t :=
    hc.document hf hf' (FilePath.same_iff_plain.2 (congrArg ResolutionKey.file hk).symm) ht
  have pointer {key key' : ResolutionKey} (hk : key'.plain = key.plain) :
      key'.pointer = key.pointer :=
    have : key'.plain.pointer = key.plain.pointer := congrArg ResolutionKey.pointer hk
    this
  induction h generalizing origin' visited' with
  | astray => simp
  | unread => simp
  | lost => simp
  | again hk hu =>
    refine ⟨by simp, fun chain _ => ?_⟩
    obtain ⟨key', hk', he⟩ := keyOf_respell hs hk
    exact ⟨_, .again hk' ((unvisited_respell hv he).trans hu)⟩
  | arrives hk hu ht hp hr =>
    refine ⟨fun a ha => ?_, by simp⟩
    cases ha
    obtain ⟨key', hk', he⟩ := keyOf_respell hs hk
    have ht' := look (key_file_of_keyOf hc ho hk) (key_file_of_keyOf hc ho' hk') he ht
    refine ⟨_, .arrives hk' ((unvisited_respell hv he).trans hu) ht' (pointer he ▸ hp) hr, ?_⟩
    rw [Target.plain, Target.plain, he]
  | @passes _ _ visited key _ _ _ _ hk hu ht hp hr next ih =>
    obtain ⟨key', hk', he⟩ := keyOf_respell hs hk
    have hf := key_file_of_keyOf hc ho hk
    have hf' := key_file_of_keyOf hc ho' hk'
    have hu' := (unvisited_respell hv he).trans hu
    have hp' := pointer he ▸ hp
    have hvisited : (visited' ++ [key']).map ResolutionKey.plain =
        (visited ++ [key]).map ResolutionKey.plain := by simp [hv, he]
    obtain ⟨hok, hcyc⟩ := ih hf hf' (congrArg ResolutionKey.file he) hvisited
    constructor
    · intro a ha
      obtain ⟨a', hnext, hplain⟩ := hok a ha
      exact ⟨a', .passes hk' hu' (look hf hf' he ht) hp' hr hnext, hplain⟩
    · intro chain hchain
      obtain ⟨chain', hnext⟩ := hcyc chain hchain
      exact ⟨chain', .passes hk' hu' (look hf hf' he ht) hp' hr hnext⟩

end Resolver

end Schemata
