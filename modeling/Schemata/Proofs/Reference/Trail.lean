import Mathlib.Data.List.Perm.Subperm
import Schemata.Proofs.Reference.History

/-!
# The trail of a reference

A trail goes from hop to hop: each hop finds the node that a reference names in the file it is
written in, and if that node is itself a reference, the next hop starts there. A resolver goes
along the trail up to its first node that is no reference, its first repeated key or its first hop
that leads nowhere, whichever is met first, and reports just that. One of the three is met, since
the keys of a trail without repetition are among finitely many.
-/

namespace Schemata

namespace Resolver

/-- The node that a reference written in a file names, be it a reference or not. -/
def hop (r : Resolver) (d : Disk) (raw : String) (origin : FilePath) : Except Unresolved Target :=
  match keyOf r.idBase d raw origin with
  | .error e => .error e
  | .ok key =>
    match r.document d key.file with
    | .error e => .error (.notLoaded e)
    | .ok t =>
      match Pointer.resolve t key.pointer with
      | .error e => .error (.pointer e)
      | .ok u => .ok ⟨key, u⟩

/-- No key is that of an earlier one. -/
def Fresh (keys : List ResolutionKey) : Prop := keys.Pairwise fun k l => ¬ k.same l

instance (keys : List ResolutionKey) : Decidable (Fresh keys) :=
  inferInstanceAs (Decidable (keys.Pairwise fun k l => ¬ k.same l))

/-- The hops from the reference `raw` in the file `origin` on have come through the nodes at `keys`,
and the next reference, with the file that it is written in, is the last one. -/
inductive Trail (r : Resolver) (d : Disk) (raw : String) (origin : FilePath) :
    List ResolutionKey → String → FilePath → Prop
  | start : Trail r d raw origin [] raw origin
  | on {keys raw' file target raw''} (before : Trail r d raw origin keys raw' file)
    (hop : r.hop d raw' file = .ok target) (ref : target.value.reference? = some raw'') :
    Trail r d raw origin (keys ++ [target.key]) raw'' target.key.file

inductive Ends (r : Resolver) (d : Disk) (raw : String) (origin : FilePath) :
    Except LoadError Target → Prop
  /-- A node is no reference, before any key is repeated. -/
  | arrives {keys raw' file target} (trail : Trail r d raw origin keys raw' file)
    (hop : r.hop d raw' file = .ok target) (fresh : Fresh (keys ++ [target.key]))
    (noref : target.value.reference? = none) : Ends r d raw origin (.ok target)
  /-- The key of a hop is the first one to be repeated. -/
  | again {keys raw' file key} (trail : Trail r d raw origin keys raw' file)
    (located : keyOf r.idBase d raw' file = .ok key) (fresh : Fresh keys)
    (repeated : ¬ Fresh (keys ++ [key])) :
    Ends r d raw origin (.error (.cyclic (keys ++ [key])))
  /-- A hop leads nowhere, before any key is repeated. -/
  | fails {keys raw' file reason} (trail : Trail r d raw origin keys raw' file)
    (hop : r.hop d raw' file = .error reason) (fresh : Fresh keys)
    (unrepeated : ∀ key, keyOf r.idBase d raw' file = .ok key → Fresh (keys ++ [key])) :
    Ends r d raw origin (.error (.unresolved raw' file reason))

variable {r : Resolver} {d : Disk} {raw raw' : String} {origin file : FilePath}
  {keys : List ResolutionKey} {key : ResolutionKey} {target : Target}
  {o : Except LoadError Target} {e : FileError}

theorem hop_eq_ok : r.hop d raw origin = .ok target ↔ ∃ t,
    keyOf r.idBase d raw origin = .ok target.key ∧ r.document d target.key.file = .ok t ∧
      Pointer.resolve t target.key.pointer = .ok target.value := by
  constructor
  · intro h
    unfold hop at h
    split at h
    · cases h
    rename_i key hk
    split at h
    · cases h
    rename_i t ht
    split at h
    · cases h
    rename_i u hu
    cases h
    exact ⟨t, hk, ht, hu⟩
  · rintro ⟨t, hk, ht, hu⟩
    simp only [hop, hk, ht, hu]

theorem fresh_append_singleton :
    Fresh (keys ++ [key]) ↔ Fresh keys ∧ unvisited keys key = true := by
  simp [Fresh, unvisited, List.pairwise_append]

theorem unvisited_eq_false (h : Fresh keys) :
    unvisited keys key = false ↔ ¬ Fresh (keys ++ [key]) := by
  rw [fresh_append_singleton, ← Bool.not_eq_true, not_and, imp_iff_right h]

theorem unrepeated (hk : keyOf r.idBase d raw origin = .ok key) (h : Fresh keys)
    (hv : unvisited keys key = true) :
    ∀ key', keyOf r.idBase d raw origin = .ok key' → Fresh (keys ++ [key']) := by
  intro key' hk'
  rw [hk] at hk'
  cases hk'
  exact fresh_append_singleton.2 ⟨h, hv⟩

theorem Fresh.nodup (h : Fresh keys) : keys.Nodup := by
  refine List.Pairwise.imp (fun hn he => hn ?_) h
  rw [he, ResolutionKey.same, FilePath.same_self]
  simp

theorem Follows.ends (h : Follows r.idBase d (r.document d) raw' file keys o)
    (trail : Trail r d raw origin keys raw' file) (fresh : Fresh keys) :
    Ends r d raw origin o := by
  induction h with
  | astray hk => exact .fails trail (by rw [hop, hk]) fresh (by simp [hk])
  | again hk hv => exact .again trail hk fresh ((unvisited_eq_false fresh).1 hv)
  | unread hk hv ht =>
    exact .fails trail (by simp only [hop, hk, ht]) fresh (unrepeated hk fresh hv)
  | lost hk hv ht hu =>
    exact .fails trail (by simp only [hop, hk, ht, hu]) fresh (unrepeated hk fresh hv)
  | arrives hk hv ht hu hr =>
    exact .arrives trail (hop_eq_ok.2 ⟨_, hk, ht, hu⟩) (fresh_append_singleton.2 ⟨fresh, hv⟩) hr
  | @passes _ _ _ key t u raw'' o hk hv ht hu hr next ih =>
    have hhop : r.hop d _ _ = .ok ⟨key, u⟩ := hop_eq_ok.2 ⟨t, hk, ht, hu⟩
    exact ih (.on trail hhop hr) (fresh_append_singleton.2 ⟨fresh, hv⟩)

/-- What comes of the last reference of a trail comes of the first one. -/
theorem Trail.follows (trail : Trail r d raw origin keys raw' file) (fresh : Fresh keys)
    (h : Follows r.idBase d (r.document d) raw' file keys o) :
    Follows r.idBase d (r.document d) raw origin [] o := by
  induction trail with
  | start => exact h
  | on before hop ref ih =>
    obtain ⟨t, hk, ht, hu⟩ := hop_eq_ok.1 hop
    obtain ⟨hf, hv⟩ := fresh_append_singleton.1 fresh
    exact ih hf (.passes hk hv ht hu ref h)

theorem Ends.follows (h : Ends r d raw origin o) :
    Follows r.idBase d (r.document d) raw origin [] o := by
  cases h with
  | arrives trail hop fresh noref =>
    obtain ⟨t, hk, ht, hu⟩ := hop_eq_ok.1 hop
    obtain ⟨hf, hv⟩ := fresh_append_singleton.1 fresh
    exact trail.follows hf (.arrives hk hv ht hu noref)
  | again trail located fresh repeated =>
    exact trail.follows fresh (.again located ((unvisited_eq_false fresh).2 repeated))
  | @fails keys raw' file reason trail hhop fresh unrepeated =>
    refine trail.follows fresh ?_
    unfold hop at hhop
    split at hhop
    · rename_i e hk
      cases hhop
      exact .astray hk
    rename_i key hk
    have hv := (fresh_append_singleton.1 (unrepeated key hk)).2
    split at hhop
    · rename_i e ht
      cases hhop
      exact .unread hk hv ht
    rename_i t ht
    split at hhop
    · rename_i e hu
      cases hhop
      exact .lost hk hv ht hu
    · cases hhop

theorem ends_iff_follows :
    Ends r d raw origin o ↔ Follows r.idBase d (r.document d) raw origin [] o :=
  ⟨Ends.follows, fun h => h.ends .start .nil⟩

theorem exists_document_eq_error (hc : r.cached? file = none) (hf : ¬ d.Found file) :
    ∃ e, r.document d file = .error e := by
  rw [document, hc]
  cases ht : Tree.load d file with
  | error e => exact ⟨e, rfl⟩
  | ok t =>
    obtain ⟨_, name, text, -, hfind, -⟩ := Disk.load_eq_ok.1 ht
    exact absurd ⟨_, hfind⟩ hf

theorem resolveIn_unread (hk : keyOf r.idBase d raw origin = .ok key)
    (ht : r.document d key.file = .error e) :
    (r.resolveIn d raw origin).1 = .error (.unresolved raw origin (.notLoaded e)) := by
  have hv : unvisited [] key = true := rfl
  unfold resolveIn
  fun_cases follow d r raw origin r raw origin [] (.start r d raw origin) <;> grind

/-- Wherever a reference is written, a resolver goes as the documents say that are kept and found
when it sets out. -/
theorem follows_resolveIn (hd : d.WellFormed) (r : Resolver) (raw : String) (origin : FilePath) :
    Follows r.idBase d (r.document d) raw origin [] (r.resolveIn d raw origin).1 := by
  have hc := closed_steady_or_kept hd r
  by_cases ho : ∀ key, keyOf r.idBase d raw origin = .ok key →
      d.Steady key.file ∨ (r.cached? key.file).isSome
  · exact (follow_spec hc (.refl d _ r) ho _).1
  -- a file that is not found as it is spelled, but in another spelling, cannot be read
  push Not at ho
  obtain ⟨key, hk, hs, hn⟩ := ho
  obtain ⟨e, he⟩ := exists_document_eq_error (by simpa using hn) fun hf => hs fun _ _ _ => hf
  rw [resolveIn_unread hk he]
  exact .unread hk rfl he

/-- The hops of a trail stay within the reach of its start. -/
theorem Trail.inReach (trail : Trail r d raw origin keys raw' file) :
    InReach r d raw origin r raw' file ∧ keys ⊆ reachKeys r d raw origin := by
  induction trail with
  | start => exact ⟨.start r d raw origin, List.nil_subset _⟩
  | on before hop ref ih =>
    obtain ⟨t, hk, ht, hu⟩ := hop_eq_ok.1 hop
    obtain ⟨hin, hkeys⟩ := ih
    have hnext := hin.next hk ht hu ref
    exact ⟨⟨hnext.file_mem, hnext.raw_mem, hin.cache_mem⟩,
      List.append_subset.2 ⟨hkeys, by simpa using hin.key_mem hk⟩⟩

theorem Trail.length_le (trail : Trail r d raw origin keys raw' file) (fresh : Fresh keys) :
    keys.length ≤ (reachKeys r d raw origin).length :=
  (List.subperm_of_subset fresh.nodup trail.inReach.2).length_le

/-- What a resolver says of a reference is what the trail of the reference ends with. A target is
the node at its key, and no reference. A trail without repetition has no more keys than there are
within reach, so that it ends. -/
theorem resolve_eq_iff_ends (hd : d.WellFormed) (r : Resolver) (raw : String)
    (stack : ResolutionStack) :
    (∀ o, (r.resolve d raw stack).1 = o ↔ Ends r d raw stack.currentFile o) ∧
    (∀ target, (r.resolve d raw stack).1 = .ok target → ∃ t,
      r.document d target.key.file = .ok t ∧
      Pointer.resolve t target.key.pointer = .ok target.value ∧
      target.value.reference? = none) ∧
    ∀ keys raw' file, Trail r d raw stack.currentFile keys raw' file → Fresh keys →
      keys.length ≤ (reachKeys r d raw stack.currentFile).length := by
  have hrun : Ends r d raw stack.currentFile (r.resolve d raw stack).1 :=
    ends_iff_follows.2 (follows_resolveIn hd r raw stack.currentFile)
  refine ⟨fun o => ⟨fun h => h ▸ hrun, fun h => hrun.follows.unique h.follows⟩,
    fun target h => ?_, fun keys raw' file trail fresh => trail.length_le fresh⟩
  rw [h] at hrun
  cases hrun with
  | arrives trail hop fresh noref =>
    obtain ⟨t, -, ht, hu⟩ := hop_eq_ok.1 hop
    exact ⟨t, ht, hu, noref⟩

def Ring.read : Tree := .mapping [("x", .mapping [("$ref", .string "b.json#/y")]),
  ("z", .mapping [("$ref", .string "#/w")]), ("w", .mapping [("$ref", .string "none.json")])]

def Ring.kept : Tree := .mapping [("y", .mapping [("$ref", .string "a.json#/x")])]

def Ring.disk : Disk :=
  ⟨[(["a.json"], .file (.text ("\x7b\"x\":\x7b\"$ref\":\"b.json#/y\"\x7d," ++
      "\"z\":\x7b\"$ref\":\"#/w\"\x7d,\"w\":\x7b\"$ref\":\"none.json\"\x7d\x7d"))),
    (["b.json"], .file (.text "\x7b\x7d"))], []⟩

def Ring.resolver : Resolver := ⟨[(⟨"/b.json"⟩, kept)], none⟩

def Ring.stack : ResolutionStack := ⟨[⟨⟨"/c.json"⟩, ""⟩], 64⟩

theorem Ring.document_read : resolver.document disk ⟨"/a.json"⟩ = .ok read := by decide +kernel

theorem Ring.document_kept : resolver.document disk ⟨"/b.json"⟩ = .ok kept := by decide +kernel

/-- One reference runs into the ring; another one leads to a file that is missing, and the blame is
on the last hop. -/
theorem Ring.closes : disk.WellFormed ∧
    (resolver.resolve disk "a.json#/x" stack).1 = .error (.cyclic
      [⟨⟨"/a.json"⟩, "/x"⟩, ⟨⟨"/b.json"⟩, "/y"⟩, ⟨⟨"/a.json"⟩, "/x"⟩]) ∧
    (resolver.resolve disk "a.json#/z" stack).1 = .error
      (.unresolved "none.json" ⟨"/a.json"⟩ (.cannotOpen ⟨"/none.json"⟩ .notFound)) := by
  have hd : disk.WellFormed := by decide +kernel
  refine ⟨hd, ((resolve_eq_iff_ends hd _ _ _).1 _).2 ?_, ((resolve_eq_iff_ends hd _ _ _).1 _).2 ?_⟩
  · have hx : resolver.hop disk "a.json#/x" ⟨"/c.json"⟩ =
        .ok ⟨⟨⟨"/a.json"⟩, "/x"⟩, .mapping [("$ref", .string "b.json#/y")]⟩ :=
      hop_eq_ok.2 ⟨read, by decide +kernel, document_read, by decide +kernel⟩
    have hy : resolver.hop disk "b.json#/y" ⟨"/a.json"⟩ =
        .ok ⟨⟨⟨"/b.json"⟩, "/y"⟩, .mapping [("$ref", .string "a.json#/x")]⟩ :=
      hop_eq_ok.2 ⟨kept, by decide +kernel, document_kept, by decide +kernel⟩
    have hx' : keyOf none disk "a.json#/x" ⟨"/b.json"⟩ = .ok ⟨⟨"/a.json"⟩, "/x"⟩ := by
      decide +kernel
    exact .again ((Trail.start.on hx rfl).on hy rfl) hx' (by decide +kernel) (by decide +kernel)
  · have hz : resolver.hop disk "a.json#/z" ⟨"/c.json"⟩ =
        .ok ⟨⟨⟨"/a.json"⟩, "/z"⟩, .mapping [("$ref", .string "#/w")]⟩ :=
      hop_eq_ok.2 ⟨read, by decide +kernel, document_read, by decide +kernel⟩
    have hw : resolver.hop disk "#/w" ⟨"/a.json"⟩ =
        .ok ⟨⟨⟨"/a.json"⟩, "/w"⟩, .mapping [("$ref", .string "none.json")]⟩ :=
      hop_eq_ok.2 ⟨read, by decide +kernel, document_read, by decide +kernel⟩
    have hn : keyOf none disk "none.json" ⟨"/a.json"⟩ =
        .error (.cannotOpen ⟨"/none.json"⟩ .notFound) := by decide +kernel
    have hlost : resolver.hop disk "none.json" ⟨"/a.json"⟩ =
        .error (.cannotOpen ⟨"/none.json"⟩ .notFound) := by rw [hop, resolver, hn]
    exact .fails ((Trail.start.on hz rfl).on hw rfl) hlost (by decide +kernel)
      fun key hk => absurd (hk.symm.trans hn) (by simp)

end Resolver

end Schemata
