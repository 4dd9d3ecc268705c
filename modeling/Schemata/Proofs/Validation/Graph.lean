import Mathlib.Data.List.Chain
import Mathlib.Logic.Relation
import Schemata.Proofs.Reference.Course
import Schemata.Proofs.Validation.Positions
import Schemata.Validation.Walk

/-!
# The reference graph

The nodes are targets: keys with the trees that they lead to. A node leads to what the references
in its tree resolve to. Files are spelled plainly here, so that one node has one key. A list of
nodes each of which leads only to earlier ones holds all that its nodes reach, and no cycle.
-/

namespace Schemata

open Relation

/-- The document itself as a node. -/
def Schema.target (d : Disk) (s : Schema) : Target := ⟨(ResolutionKey.root d s.path).plain, s.root⟩

def Schema.resolver (d : Disk) (r : Resolver) (s : Schema) : Resolver :=
  r.insertDocument d s.path s.root

/-- A reference in the tree of a node resolves to another node. -/
def Leads (d : Disk) (r : Resolver) (a b : Target) : Prop :=
  ∃ raw, a.value.Refers raw ∧ (r.resolveIn d raw a.key.file).1 = .ok b

/-- The document comes to a node by references. -/
def Schema.Reaches (d : Disk) (r : Resolver) (s : Schema) (a : Target) : Prop :=
  ReflTransGen (Leads d (s.resolver d r)) (s.target d) a

/-- The node at a key is itself a reference, to another key. -/
def Passes (d : Disk) (r : Resolver) (k l : ResolutionKey) : Prop :=
  ∃ t u raw, r.document d k.file = .ok t ∧ Pointer.resolve t k.pointer = .ok u ∧
    u.reference? = some raw ∧ Resolver.keyOf r.idBase d raw k.file = .ok l

/-- A reference starts a chain of nothing but references that comes to a key twice. -/
def Circles (d : Disk) (r : Resolver) (raw : String) (file : FilePath) : Prop :=
  ∃ key chain, Resolver.keyOf r.idBase d raw file = .ok key ∧
    (key :: chain).IsChain (Passes d r) ∧ ¬ (key :: chain).Nodup

variable {d : Disk} {r : Resolver} {s : Schema} {a b : Target} {raw : String} {file : FilePath}

/-- Nodes each of which leads to the next one, from the document on, at distinct keys. -/
structure Schema.IsPath (d : Disk) (r : Resolver) (s : Schema) (path : List Target) : Prop where
  start : path.head? = some (s.target d)
  leads : path.IsChain (Leads d (s.resolver d r))
  distinct : (path.map Target.key).Nodup

def Target.IsPlain (a : Target) : Prop := a.key.file.plain = a.key.file

theorem Resolver.closed_plain (hd : d.WellFormed) (r : Resolver) :
    r.Closed d fun f => f.plain = f where
  canonical h := Disk.plain_of_canonical hd h
  document {f g t} hf hg hs ht := by
    have : f = g := hf.symm.trans ((FilePath.same_iff_plain.1 hs).trans hg)
    rwa [← this]

theorem resolveIn_eq_iff_follows (hd : d.WellFormed) (ha : a.IsPlain)
    {o : Except LoadError Target} : (r.resolveIn d raw a.key.file).1 = o ↔
      Resolver.Follows r.idBase d (r.document d) raw a.key.file [] o :=
  Resolver.resolveIn_eq_iff (r.closed_plain hd) ha

/-- The node has the tree that its key leads to. -/
def Target.IsAt (d : Disk) (r : Resolver) (a : Target) : Prop :=
  ∃ t, r.document d a.key.file = .ok t ∧ Pointer.resolve t a.key.pointer = .ok a.value

theorem Target.IsAt.eq (ha : a.IsAt d r) (hb : b.IsAt d r) (h : a.key = b.key) : a = b := by
  obtain ⟨t, hta, hva⟩ := ha
  obtain ⟨u, htb, hvb⟩ := hb
  rw [h] at hta hva
  rw [hta] at htb
  cases htb
  rw [hva] at hvb
  cases a
  cases b
  simp_all

theorem Leads.isPlain (hd : d.WellFormed) (ha : a.IsPlain) (h : Leads d r a b) : b.IsPlain := by
  obtain ⟨raw, -, hb⟩ := h
  exact ((resolveIn_eq_iff_follows hd ha).1 hb).file_mem (r.closed_plain hd) ha

theorem Leads.isAt (hd : d.WellFormed) (ha : a.IsPlain) (h : Leads d r a b) : b.IsAt d r := by
  obtain ⟨raw, -, hb⟩ := h
  exact ((resolveIn_eq_iff_follows hd ha).1 hb).value

theorem Schema.isPlain_target (d : Disk) (s : Schema) : (s.target d).IsPlain :=
  FilePath.plain_plain _

theorem Schema.isAt_target (d : Disk) (r : Resolver) (s : Schema) :
    (s.target d).IsAt d (s.resolver d r) := by
  refine ⟨s.root, Resolver.document_put_self ?_, rfl⟩
  rw [FilePath.same_iff_plain]
  exact (FilePath.plain_plain _).symm

namespace Schema.Reaches

theorem isPlain (hd : d.WellFormed) (h : s.Reaches d r a) : a.IsPlain := by
  induction h with
  | refl => exact s.isPlain_target d
  | tail _ hl ih => exact hl.isPlain hd ih

theorem isAt (hd : d.WellFormed) (h : s.Reaches d r a) : a.IsAt d (s.resolver d r) := by
  cases h with
  | refl => exact s.isAt_target d r
  | tail h hl => exact hl.isAt hd (isPlain hd h)

/-- Of the nodes that a document comes to, one key has one. -/
theorem eq_of_key (hd : d.WellFormed) (ha : s.Reaches d r a) (hb : s.Reaches d r b)
    (h : a.key = b.key) : a = b :=
  (ha.isAt hd).eq (hb.isAt hd) h

end Schema.Reaches

theorem reaches_of_chain {path : List Target} (h : path.IsChain (Leads d r))
    (ha : path.getLast? = some a) (hb : b ∈ path) : ReflTransGen (Leads d r) b a := by
  obtain ⟨before, after, rfl⟩ := List.append_of_mem hb
  have hc := (List.isChain_append.1 h).2.1
  rw [List.getLast?_append_of_ne_nil _ (List.cons_ne_nil b after)] at ha
  clear h hb
  induction after generalizing b with
  | nil =>
    cases ha
    exact .refl
  | cons c after ih =>
    obtain ⟨hl, hrest⟩ := List.isChain_cons_cons.1 hc
    exact .head hl (ih ha hrest)

namespace Schema.IsPath

variable {path : List Target}

theorem reaches (h : s.IsPath d r path) (ha : a ∈ path) : s.Reaches d r a := by
  obtain ⟨before, after, rfl⟩ := List.append_of_mem ha
  have hc : (before ++ [a]).IsChain (Leads d (s.resolver d r)) := by
    have := h.leads
    rw [← List.singleton_append, ← List.append_assoc] at this
    exact (List.isChain_append.1 this).1
  refine reaches_of_chain hc List.getLast?_concat (List.mem_of_head? ?_)
  rw [← h.start]
  cases before <;> rfl

theorem singleton (d : Disk) (r : Resolver) (s : Schema) : s.IsPath d r [s.target d] where
  start := rfl
  leads := .singleton _
  distinct := by simp

theorem concat (h : s.IsPath d r path) (ha : path.getLast? = some a)
    (hl : Leads d (s.resolver d r) a b) (hn : b.key ∉ path.map Target.key) :
    s.IsPath d r (path ++ [b]) where
  start := by rw [List.head?_append, h.start]; rfl
  leads := by
    refine List.isChain_append.2 ⟨h.leads, .singleton b, ?_⟩
    rintro x hx y hy
    rw [ha] at hx
    cases hx
    cases hy
    exact hl
  distinct := by
    rw [List.map_append, List.nodup_append]
    refine ⟨h.distinct, by simp, ?_⟩
    rintro k hk l hl rfl
    exact hn (List.mem_singleton.1 hl ▸ hk)

end Schema.IsPath

theorem Resolver.plain_of_keyOf (hd : d.WellFormed) (hf : file.plain = file) {key : ResolutionKey}
    (hk : Resolver.keyOf r.idBase d raw file = .ok key) : key.plain = key := by
  have : key.file.plain = key.file := Resolver.key_file_of_keyOf (r.closed_plain hd) hf hk
  rw [ResolutionKey.plain, this]

namespace Resolver.Follows

variable {visited chain : List ResolutionKey} {key : ResolutionKey} {target : Target}

theorem exists_key_of_cyclic (h : Follows r.idBase d (r.document d) raw file visited
    (.error (.cyclic chain))) : ∃ key, keyOf r.idBase d raw file = .ok key := by
  cases h with
  | again hk | passes hk => exact ⟨_, hk⟩

theorem not_nodup (hd : d.WellFormed) (hf : file.plain = file) (hv : ∀ k ∈ visited, k.plain = k)
    (h : Follows r.idBase d (r.document d) raw file visited (.error (.cyclic chain)))
    (hk : keyOf r.idBase d raw file = .ok key)
    (hc : (visited ++ [key]).IsChain (Passes d r)) :
    ∃ rest, chain = visited ++ key :: rest ∧ chain.IsChain (Passes d r) ∧ ¬ chain.Nodup := by
  generalize ho : (.error (.cyclic chain) : Except LoadError Target) = o at h
  -- along the course, the nodes visited and the next one pass to one another
  induction h generalizing key with
  | @again raw file visited key' hk' hu =>
    cases ho
    have he : key = key' := Except.ok.inj (hk.symm.trans hk')
    subst he
    obtain ⟨k, hm, hs⟩ : ∃ k ∈ visited, k.same key := by simpa [unvisited] using hu
    have : k = key := by
      rw [← hv k hm, ← plain_of_keyOf hd hf hk]
      exact ResolutionKey.same_iff_plain.1 hs
    subst this
    refine ⟨[], rfl, hc, fun hn => ?_⟩
    exact (List.nodup_append.1 hn).2.2 k hm k List.mem_cons_self rfl
  | @passes raw file visited key' t u raw' o hk' hu ht hp hr next ih =>
    have he : key = key' := Except.ok.inj (hk.symm.trans hk')
    subst he
    have hplain := plain_of_keyOf hd hf hk
    have hfile : key.file.plain = key.file := congrArg ResolutionKey.file hplain
    have hvisited : ∀ k ∈ visited ++ [key], k.plain = k := by
      intro k hk
      rcases List.mem_append.1 hk with hk | hk
      · exact hv k hk
      · rw [List.mem_singleton.1 hk, hplain]
    obtain ⟨key', hk'⟩ := exists_key_of_cyclic (ho ▸ next)
    have hpass : Passes d r key key' := ⟨t, u, raw', ht, hp, hr, hk'⟩
    have hc' : (visited ++ [key] ++ [key']).IsChain (Passes d r) := by
      rw [List.append_assoc, List.singleton_append, List.isChain_append_cons_cons]
      exact ⟨hc, hpass, List.isChain_singleton key'⟩
    obtain ⟨rest, he, hchain, hn⟩ := ih hfile hvisited hk' hc' ho
    exact ⟨key' :: rest, by simpa using he, hchain, hn⟩
  | _ => cases ho

/-- A course that succeeds comes to no key twice. -/
theorem nodup (h : Follows r.idBase d (r.document d) raw file visited (.ok target))
    (hk : keyOf r.idBase d raw file = .ok key) (hc : (key :: chain).IsChain (Passes d r)) :
    (∀ k ∈ key :: chain, unvisited visited k) ∧ (key :: chain).Nodup := by
  generalize ho : (.ok target : Except LoadError Target) = o at h
  induction h generalizing key chain with
  | @arrives raw file visited key' t u hk' hu ht hp hr =>
    have he : key = key' := Except.ok.inj (hk.symm.trans hk')
    subst he
    cases chain with
    | nil => exact ⟨by simpa using hu, by simp⟩
    | cons l chain =>
      obtain ⟨t', u', raw', ht', hp', hr', -⟩ := (List.isChain_cons_cons.1 hc).1
      rw [ht] at ht'
      cases ht'
      rw [hp] at hp'
      cases hp'
      rw [hr] at hr'
      cases hr'
  | @passes raw file visited key' t u raw' o hk' hu ht hp hr next ih =>
    have he : key = key' := Except.ok.inj (hk.symm.trans hk')
    subst he
    cases chain with
    | nil => exact ⟨by simpa using hu, by simp⟩
    | cons l chain =>
      obtain ⟨⟨t', u', raw', ht', hp', hr', hl⟩, hrest⟩ := List.isChain_cons_cons.1 hc
      rw [ht] at ht'
      cases ht'
      rw [hp] at hp'
      cases hp'
      rw [hr] at hr'
      cases hr'
      obtain ⟨hun, hn⟩ := ih hl hrest ho
      have fresh : ∀ k ∈ l :: chain, unvisited visited k ∧ ¬ key.same k := by
        intro k hk
        simpa [unvisited] using hun k hk
      refine ⟨?_, List.nodup_cons.2 ⟨fun hm => (fresh key hm).2 ?_, hn⟩⟩
      · intro k hk
        rcases List.mem_cons.1 hk with rfl | hk
        · exact hu
        · exact (fresh k hk).1
      · exact ResolutionKey.same_iff_plain.2 rfl
  | _ => cases ho

end Resolver.Follows

/-- A reference that is refused as a cycle starts a chain that comes to a key twice. -/
theorem circles_of_cyclic (hd : d.WellFormed) (ha : a.IsPlain) {chain : List ResolutionKey}
    (h : (r.resolveIn d raw a.key.file).1 = .error (.cyclic chain)) :
    Circles d r raw a.key.file := by
  have h := (resolveIn_eq_iff_follows hd ha).1 h
  obtain ⟨key, hk⟩ := h.exists_key_of_cyclic
  obtain ⟨rest, rfl, hc, hn⟩ := h.not_nodup hd ha (by simp) hk (List.isChain_singleton key)
  exact ⟨key, rest, hk, hc, hn⟩

theorem not_circles_of_resolves (hd : d.WellFormed) (ha : a.IsPlain)
    (h : (r.resolveIn d raw a.key.file).1 = .ok b) : ¬ Circles d r raw a.key.file := by
  rintro ⟨key, chain, hk, hc, hn⟩
  exact hn (((resolveIn_eq_iff_follows hd ha).1 h).nodup hk hc).2

/-- Nodes in an order in which each leads only to earlier ones. -/
inductive Settled (d : Disk) (r : Resolver) : List Target → Prop
  | nil : Settled d r []
  | concat {done a} (hs : Settled d r done)
    (ha : ∀ raw, a.value.Refers raw → ∃ b ∈ done, (r.resolveIn d raw a.key.file).1 = .ok b) :
    Settled d r (done ++ [a])

variable {done : List Target}

theorem Settled.resolves (h : Settled d r done) (ha : a ∈ done) (hr : a.value.Refers raw) :
    ∃ b ∈ done, (r.resolveIn d raw a.key.file).1 = .ok b := by
  induction h with
  | nil => cases ha
  | concat hs hlast ih =>
    rcases List.mem_append.1 ha with ha | ha
    · obtain ⟨b, hb, he⟩ := ih ha
      exact ⟨b, List.mem_append_left _ hb, he⟩
    · cases List.mem_singleton.1 ha
      obtain ⟨b, hb, he⟩ := hlast raw hr
      exact ⟨b, List.mem_append_left _ hb, he⟩

theorem Settled.mem_of_leads (h : Settled d r done) (ha : a ∈ done) (hl : Leads d r a b) :
    b ∈ done := by
  obtain ⟨raw, hr, hb⟩ := hl
  obtain ⟨b', hb', he⟩ := h.resolves ha hr
  rw [he] at hb
  cases hb
  exact hb'

theorem Settled.mem_of_reaches (h : Settled d r done) (ha : a ∈ done)
    (hl : ReflTransGen (Leads d r) a b) : b ∈ done := by
  induction hl with
  | refl => exact ha
  | tail _ hl ih => exact h.mem_of_leads ih hl

theorem Settled.acyclic (h : Settled d r done) (ha : a ∈ done)
    (hl : TransGen (Leads d r) a b) : b ≠ a := by
  induction h with
  | nil => cases ha
  | @concat done x hs hlast ih =>
    by_cases hd : a ∈ done
    · exact ih hd
    · have : a = x := by simpa [hd] using ha
      subst this
      obtain ⟨c, ⟨raw, hr, hc⟩, hrest⟩ := TransGen.head'_iff.1 hl
      obtain ⟨c', hmem, he⟩ := hlast raw hr
      rw [he] at hc
      cases hc
      -- the last node leads to earlier ones only, and these never lead back to it
      rintro rfl
      exact hd (hs.mem_of_reaches hmem hrest)

end Schemata
