import Mathlib.Data.List.Perm.Subperm
import Schemata.Proofs.File.Reordering
import Schemata.Proofs.Validation.Verdict

/-!
# The order of entries does not count

Whether a validation ends, and whether it reports anything, depends on the reference graph and not
on the way of the walk through it: all references have to resolve, no node may come back to its key,
and all nodes have to be clean. With the entries of all documents in another order the graph is the
same but for the order of entries in its nodes. Only the depth of the stack depends on the way, and
it does not matter where the document leads to few enough targets.
-/

namespace Schemata

open Relation

variable {g : Tree → List Violation} {d d' : Disk} {r : Resolver} {s s' : Schema}
  {a a' b b' : Target} {raw : String}

inductive Verdict where
  | valid
  | invalid
  | failed
deriving DecidableEq, Repr

def Verdict.of : Except LoadError (List Violation) → Verdict
  | .ok [] => valid
  | .ok (_ :: _) => invalid
  | .error _ => failed

/-- All references resolve, and no node comes back to its key. -/
structure Schema.Unfolds (d : Disk) (r : Resolver) (s : Schema) : Prop where
  resolves : ∀ a raw, s.Reaches d r a → a.value.Refers raw →
    ∃ b, ((s.resolver d r).resolveIn d raw a.key.file).1 = .ok b
  acyclic : ∀ a b, s.Reaches d r a → TransGen (Leads d (s.resolver d r)) a b → b.key ≠ a.key

/-- There are at most so many targets that references lead to from the document on. -/
def Schema.AtMost (d : Disk) (r : Resolver) (s : Schema) (n : Nat) : Prop :=
  ∃ keys : List ResolutionKey, keys.length ≤ n ∧
    ∀ a, TransGen (Leads d (s.resolver d r)) (s.target d) a → a.key ∈ keys

theorem unfolds_of_ok (hd : d.WellFormed) {vs : List Violation}
    (h : (s.validate g d r).1 = .ok vs) : s.Unfolds d r := by
  obtain ⟨all, hall, hmem, -, -⟩ := exists_settled hd h
  constructor
  · intro a raw ha hraw
    obtain ⟨b, -, hb⟩ := hall.resolves (hall.mem_of_reaches hmem ha) hraw
    exact ⟨b, hb⟩
  · intro a b ha hab hk
    have hb : s.Reaches d r b := ha.trans hab.to_reflTransGen
    exact hall.acyclic (hall.mem_of_reaches hmem ha) hab (hb.eq_of_key hd ha hk)

theorem Schema.IsPath.length_le {path : List Target} (hp : s.IsPath d r path) {n : Nat}
    (hn : s.AtMost d r n) : path.length ≤ n + 1 := by
  obtain ⟨keys, hlen, hkeys⟩ := hn
  have hreach := fun b (hb : b ∈ path) => hp.reaches hb
  have hhead := hp.start
  have hdistinct := hp.distinct
  cases path with
  | nil => simp
  | cons a rest =>
    obtain rfl : a = s.target d := by simpa using hhead
    obtain ⟨hne, hnodup⟩ := List.nodup_cons.1 hdistinct
    have hsub : rest.map Target.key ⊆ keys := by
      intro k hk
      obtain ⟨b, hb, rfl⟩ := List.mem_map.1 hk
      rcases reflTransGen_iff_eq_or_transGen.1 (hreach b (List.mem_cons_of_mem _ hb)) with he | ht
      · exact absurd (he ▸ hk) hne
      · exact hkeys b ht
    have := (hnodup.subperm hsub).length_le
    rw [List.length_map] at this
    rw [List.length_cons]
    omega

theorem ok_of_unfolds (hd : d.WellFormed) (hu : s.Unfolds d r) (hn : s.AtMost d r 63) :
    ∃ vs, (s.validate g d r).1 = .ok vs := by
  cases h : (s.validate g d r).1 with
  | ok vs => exact ⟨vs, rfl⟩
  | error e =>
    have hf := failure_of_error hd h
    cases e with
    | file e => exact hf.elim
    | cyclic chain =>
      rcases hf with ⟨a, b, ha, hab, hk⟩ | ⟨a, raw, ha, hraw, hc⟩ | ⟨path, hp, hlen⟩
      · exact absurd hk (hu.acyclic a b ha hab)
      · obtain ⟨b, hb⟩ := hu.resolves a raw ha hraw
        exact absurd hc (not_circles_of_resolves hd (ha.isPlain hd) hb)
      · have := hp.length_le hn
        rw [hlen, ResolutionStack.defaultDepth] at this
        omega
    | unresolved raw' file reason =>
      obtain ⟨a, raw, ha, hraw, hn⟩ := hf
      obtain ⟨b, hb⟩ := hu.resolves a raw ha hraw
      exact absurd hb (hn b)

theorem verdict_eq_failed_iff (hd : d.WellFormed) (hn : s.AtMost d r 63) :
    Verdict.of (s.validate g d r).1 = .failed ↔ ¬ s.Unfolds d r := by
  constructor
  · intro h hu
    obtain ⟨vs, hvs⟩ := ok_of_unfolds (g := g) hd hu hn
    rw [hvs] at h
    cases vs <;> cases h
  · intro hu
    cases h : (s.validate g d r).1 with
    | ok vs => exact absurd (unfolds_of_ok hd h) hu
    | error e => rfl

theorem verdict_eq_valid_iff (hd : d.WellFormed) (hn : s.AtMost d r 63) :
    Verdict.of (s.validate g d r).1 = .valid ↔
      s.Unfolds d r ∧ ∀ a, s.Reaches d r a → a.value.Clean g := by
  have clean {vs} (h : (s.validate g d r).1 = .ok vs) :
      vs = [] ↔ ∀ a, s.Reaches d r a → a.value.Clean g := by
    obtain ⟨all, hall, hmem, hreach, hv⟩ := exists_settled hd h
    rw [hv]
    exact ⟨fun hc a ha => hc a (hall.mem_of_reaches hmem ha), fun hc a ha => hc a (hreach a ha)⟩
  constructor
  · intro h
    cases hvs : (s.validate g d r).1 with
    | ok vs =>
      rw [hvs] at h
      cases vs with
      | nil => exact ⟨unfolds_of_ok hd hvs, (clean hvs).1 rfl⟩
      | cons => cases h
    | error e =>
      rw [hvs] at h
      cases h
  · rintro ⟨hu, hc⟩
    obtain ⟨vs, hvs⟩ := ok_of_unfolds (g := g) hd hu hn
    rw [hvs, (clean hvs).2 hc]
    rfl

namespace Resolver

variable {idBase : Option IdBase} {look look' : FilePath → Except FileError Tree}
  {origin : FilePath} {visited : List ResolutionKey} {scope : FilePath → Prop}

theorem keyOf_reorders (h : d.Reorders d') {key : ResolutionKey}
    (hk : keyOf idBase d raw origin = .ok key) : keyOf idBase d' raw origin = .ok key := by
  rw [keyOf_eq_ok] at hk ⊢
  refine hk.imp_right fun ⟨target, hr, hl⟩ => ⟨target, hr, ?_⟩
  obtain ⟨p, hp, hc⟩ := locate_eq_ok.1 hl
  exact locate_eq_ok.2 ⟨p, hp, h.canonical hc⟩

/-- A reference leads to the same key, and the entries of the node there are in another order. -/
theorem Follows.reorders (hc : r.Closed d scope) (h : d.Reorders d')
    (hlook : ∀ f, scope f → Tree.Reread (look f) (look' f)) (ho : scope origin)
    (hf : Follows idBase d look raw origin visited (.ok a)) :
    ∃ v, Follows idBase d' look' raw origin visited (.ok ⟨a.key, v⟩) ∧ a.value.Reorders v := by
  generalize he : (.ok a : Except LoadError Target) = o at hf
  induction hf with
  | arrives hk hu ht hp hr =>
    cases he
    obtain ⟨t', ht', htt⟩ := hlook _ (key_file_of_keyOf hc ho hk) _ ht
    obtain ⟨v, hp', hv⟩ := htt.resolve hp
    exact ⟨v, .arrives (keyOf_reorders h hk) hu ht' hp' (hv.reference?_eq.trans hr), hv⟩
  | passes hk hu ht hp hr _ ih =>
    have hfile := key_file_of_keyOf hc ho hk
    obtain ⟨t', ht', htt⟩ := hlook _ hfile _ ht
    obtain ⟨v, hp', hv⟩ := htt.resolve hp
    obtain ⟨w, hnext, hw⟩ := ih hfile he
    exact ⟨w, .passes (keyOf_reorders h hk) hu ht' hp' (hv.reference?_eq.trans hr) hnext, hw⟩
  | _ => cases he

end Resolver

/-- The same document over the same files, all with their entries in another order. -/
structure Schema.Reorders (d d' : Disk) (s s' : Schema) : Prop where
  disk : d.Reorders d'
  path : s'.path = s.path
  root : s.root.Reorders s'.root

structure Target.Reorders (a a' : Target) : Prop where
  key : a'.key = a.key
  value : a.value.Reorders a'.value

/-- Where references from a document can lead: to its own file and to those that exist. -/
def Schema.Home (d : Disk) (s : Schema) (f : FilePath) : Prop :=
  f.plain = f ∧ ((d.canonicalOrGiven s.path).same f ∨ ∃ p, d.canonical p = .ok f)

theorem closed_home (hd : d.WellFormed) (r : Resolver) (s : Schema) : r.Closed d (s.Home d) where
  canonical {p _} h := ⟨Disk.plain_of_canonical hd h, .inr ⟨p, h⟩⟩
  document hf hg := (r.closed_plain hd).document hf.1 hg.1

theorem Leads.home (hd : d.WellFormed) (ha : s.Home d a.key.file) (h : Leads d r a b) :
    s.Home d b.key.file := by
  obtain ⟨raw, -, hb⟩ := h
  exact ((resolveIn_eq_iff_follows hd ha.1).1 hb).file_mem (closed_home hd r s) ha

theorem Schema.Reaches.home (hd : d.WellFormed) (h : s.Reaches d r a) : s.Home d a.key.file := by
  induction h with
  | refl => exact ⟨s.isPlain_target d, .inl (FilePath.same_iff_plain.2 (s.isPlain_target d).symm)⟩
  | tail _ hl ih => exact hl.home hd ih

namespace Schema.Reorders

variable {idBase : Option IdBase}

theorem symm (h : s.Reorders d d' s') : s'.Reorders d' d s :=
  ⟨h.disk.symm, h.path.symm, h.root.symm⟩

theorem origin_eq (h : s.Reorders d d' s') :
    d'.canonicalOrGiven s'.path = d.canonicalOrGiven s.path := by
  rw [h.path, h.disk.canonicalOrGiven]

theorem target (h : s.Reorders d d' s') : (s.target d).Reorders (s'.target d') where
  key := by rw [Schema.target, Schema.target, ResolutionKey.root, ResolutionKey.root, h.origin_eq]
  value := h.root

theorem document (idBase : Option IdBase) (hd : d.WellFormed) (h : s.Reorders d d' s')
    {f : FilePath} (hf : s.Home d f) : Tree.Reread ((s.resolver d ⟨[], idBase⟩).document d f)
      ((s'.resolver d' ⟨[], idBase⟩).document d' f) := by
  rw [Schema.resolver, Schema.resolver, Resolver.insertDocument, Resolver.insertDocument,
    h.origin_eq]
  by_cases hs : (d.canonicalOrGiven s.path).same f
  · rw [Resolver.document_put_self hs, Resolver.document_put_self hs]
    intro t ht
    cases ht
    exact ⟨s'.root, rfl, h.root⟩
  · obtain ⟨p, hp⟩ := hf.2.resolve_left hs
    rw [Resolver.document_put_other hs, Resolver.document_put_other hs]
    exact h.disk.load hd hp

theorem resolves (hd : d.WellFormed) (h : s.Reorders d d' s') (ha : s.Reaches d ⟨[], idBase⟩ a)
    (haa : a.Reorders a')
    (hb : ((s.resolver d ⟨[], idBase⟩).resolveIn d raw a.key.file).1 = .ok b) :
    ∃ b', ((s'.resolver d' ⟨[], idBase⟩).resolveIn d' raw a'.key.file).1 = .ok b' ∧
      b.Reorders b' := by
  have hplain : a'.IsPlain := by
    rw [Target.IsPlain, haa.key]
    exact ha.isPlain hd
  have hf := (resolveIn_eq_iff_follows hd (ha.isPlain hd)).1 hb
  obtain ⟨v, hf', hv⟩ := hf.reorders (closed_home hd ⟨[], idBase⟩ s) h.disk
    (fun f hf => h.document idBase hd hf) (ha.home hd)
  refine ⟨⟨b.key, v⟩, ?_, rfl, hv⟩
  rw [resolveIn_eq_iff_follows (h.disk.wellFormed hd) hplain, haa.key]
  simpa [Schema.resolver, Resolver.insertDocument] using hf'

theorem leads (hd : d.WellFormed) (h : s.Reorders d d' s') (ha : s.Reaches d ⟨[], idBase⟩ a)
    (haa : a.Reorders a') (hl : Leads d (s.resolver d ⟨[], idBase⟩) a b) :
    ∃ b', Leads d' (s'.resolver d' ⟨[], idBase⟩) a' b' ∧ b.Reorders b' := by
  obtain ⟨raw, hraw, hb⟩ := hl
  obtain ⟨b', hb', hbb⟩ := h.resolves hd ha haa hb
  exact ⟨b', ⟨raw, haa.value.refers hraw, hb'⟩, hbb⟩

/-- The document comes to the same nodes but for the order of entries. -/
theorem reaches (hd : d.WellFormed) (h : s.Reorders d d' s') (ha : s.Reaches d ⟨[], idBase⟩ a) :
    ∃ a', s'.Reaches d' ⟨[], idBase⟩ a' ∧ a.Reorders a' := by
  induction ha with
  | refl => exact ⟨s'.target d', .refl, h.target⟩
  | tail hb hl ih =>
    obtain ⟨b', hb', hbb⟩ := ih
    obtain ⟨c', hl', hcc⟩ := h.leads hd hb hbb hl
    exact ⟨c', hb'.tail hl', hcc⟩

theorem transGen (hd : d.WellFormed) (h : s.Reorders d d' s') (ha : s.Reaches d ⟨[], idBase⟩ a)
    (haa : a.Reorders a') (hab : TransGen (Leads d (s.resolver d ⟨[], idBase⟩)) a b) :
    ∃ b', TransGen (Leads d' (s'.resolver d' ⟨[], idBase⟩)) a' b' ∧ b.Reorders b' := by
  induction hab with
  | single hl =>
    obtain ⟨b', hl', hbb⟩ := h.leads hd ha haa hl
    exact ⟨b', .single hl', hbb⟩
  | tail hab hl ih =>
    obtain ⟨b', hb', hbb⟩ := ih
    obtain ⟨c', hl', hcc⟩ := h.leads hd (ha.trans hab.to_reflTransGen) hbb hl
    exact ⟨c', hb'.tail hl', hcc⟩

theorem unfolds (hd : d.WellFormed) (h : s.Reorders d d' s') (hu : s.Unfolds d ⟨[], idBase⟩) :
    s'.Unfolds d' ⟨[], idBase⟩ := by
  have hd' := h.disk.wellFormed hd
  constructor
  · intro a' raw ha' hraw
    obtain ⟨a, ha, haa⟩ := h.symm.reaches hd' ha'
    obtain ⟨b, hb⟩ := hu.resolves a raw ha (haa.value.refers hraw)
    obtain ⟨b', hb', -⟩ := h.resolves hd ha ⟨haa.key.symm, haa.value.symm⟩ hb
    exact ⟨b', hb'⟩
  · intro a' b' ha' hab'
    obtain ⟨a, ha, haa⟩ := h.symm.reaches hd' ha'
    obtain ⟨b, hab, hbb⟩ := h.symm.transGen hd' ha' haa hab'
    rw [← haa.key, ← hbb.key]
    exact hu.acyclic a b ha hab

theorem atMost (hd : d.WellFormed) (h : s.Reorders d d' s') {n : Nat}
    (hn : s.AtMost d ⟨[], idBase⟩ n) : s'.AtMost d' ⟨[], idBase⟩ n := by
  obtain ⟨keys, hlen, hkeys⟩ := hn
  refine ⟨keys, hlen, fun a' ha' => ?_⟩
  obtain ⟨a, ha, haa⟩ := h.symm.transGen (h.disk.wellFormed hd) .refl h.symm.target ha'
  rw [← haa.key]
  exact hkeys a ha

theorem clean (hd : d.WellFormed) (h : s.Reorders d d' s')
    (hg : ∀ t u, t.Reorders u → (g t = [] ↔ g u = []))
    (hc : ∀ a, s.Reaches d ⟨[], idBase⟩ a → a.value.Clean g) :
    ∀ a, s'.Reaches d' ⟨[], idBase⟩ a → a.value.Clean g := by
  intro a' ha'
  obtain ⟨a, ha, haa⟩ := h.symm.reaches (h.disk.wellFormed hd) ha'
  obtain ⟨hgrammar, hdeclared⟩ := hc a ha
  exact ⟨(hg _ _ haa.value).2 hgrammar, haa.value.symm.allDeclared hdeclared⟩

end Schema.Reorders

theorem Verdict.ext {v w : Verdict} (hf : v = .failed ↔ w = .failed)
    (hv : v = .valid ↔ w = .valid) : v = w := by
  cases v <;> cases w <;> simp_all

/-- A validation that comes to its end has checked all targets. -/
theorem atMost_checked (hd : d.WellFormed) (h : (Walk.run g d r s).1 = .ok ()) :
    s.AtMost d r (Walk.run g d r s).2.checked.length := by
  have hs := served_run hd g r s
  rcases he : Walk.run g d r s with ⟨o, w⟩
  rw [he] at h hs
  cases h
  obtain ⟨done, -, hw, hraws⟩ := hs
  refine ⟨w.checked.map ResolutionKey.plain, by simp, fun a ha => ?_⟩
  obtain ⟨b, ⟨raw, hraw, hb⟩, hba⟩ := TransGen.head'_iff.1 ha
  obtain ⟨c, hc, he⟩ := hraws raw hraw
  have hbc : b = c := Except.ok.inj (hb.symm.trans he)
  rw [hw.checked]
  exact List.mem_map_of_mem (hw.settled.mem_of_reaches (hbc ▸ hc) hba)

def Shuffle.schema (first second : String) : Schema :=
  .ofTree ⟨"/a.json"⟩ ⟨"/"⟩ (.mapping [("properties", .mapping
    [(first, .mapping [("$ref", .string "b.json")]),
      (second, .mapping [("$ref", .string "b.json")])])])

def Shuffle.disk (text : String) : Disk := ⟨[(["b.json"], .file (.text text))], []⟩

/-- The verdict on a document that leads to few enough targets does not depend on the order of
entries, in it and in the files, if that of the grammar does not. -/
theorem Schema.verdict_reorders {idBase : Option IdBase} (hd : d.WellFormed)
    (h : s.Reorders d d' s') (hn : s.AtMost d ⟨[], idBase⟩ 63)
    (hg : ∀ t u, t.Reorders u → (g t = [] ↔ g u = [])) :
    Verdict.of (s'.validate g d' ⟨[], idBase⟩).1 = Verdict.of (s.validate g d ⟨[], idBase⟩).1 := by
  have hd' := h.disk.wellFormed hd
  have hn' := h.atMost hd hn
  apply Verdict.ext
  · rw [verdict_eq_failed_iff hd' hn', verdict_eq_failed_iff hd hn, not_iff_not]
    exact ⟨h.symm.unfolds hd', h.unfolds hd⟩
  · rw [verdict_eq_valid_iff hd' hn', verdict_eq_valid_iff hd hn]
    exact ⟨fun ⟨hu, hc⟩ => ⟨h.symm.unfolds hd' hu, h.symm.clean hd' hg hc⟩,
      fun ⟨hu, hc⟩ => ⟨h.unfolds hd hu, h.clean hd hg hc⟩⟩

namespace Shuffle

def text : String := "\x7b\"required\":[\"x\"],\"title\":\"b\"\x7d"

def text' : String := "\x7b\"title\":\"b\",\"required\":[\"x\"]\x7d"

def tree : Entries := [("required", .list [.string "x"]), ("title", .string "b")]

def tree' : Entries := [("title", .string "b"), ("required", .list [.string "x"])]

theorem tree_reorders : (Tree.mapping tree).Reorders (.mapping tree') :=
  .of_perm (.swap _ _ []) (by decide)

theorem parse_text {f : Format} (h : Format.ofPath (Disk.absolutePath ["b.json"]) = .ok f) :
    f.parse text = .ok (.mapping tree) ∧ f.parse text' = .ok (.mapping tree') := by
  have hf : Format.ofPath (Disk.absolutePath ["b.json"]) = .ok .json := by decide +kernel
  rw [hf] at h
  cases h
  exact ⟨by decide +kernel, by decide +kernel⟩

theorem disk_reorders : (disk text).Reorders (disk text') where
  current := rfl
  items := by
    refine .cons ⟨rfl, .text fun f hf => ?_⟩ .nil
    obtain ⟨ht, hu⟩ := parse_text hf
    simp only [Tree.Reread, ht, hu, Except.ok.injEq, forall_eq', exists_eq_left']
    exact ⟨tree_reorders, tree_reorders.symm⟩

theorem reorders : (schema "p" "q").Reorders (disk text) (disk text') (schema "q" "p") where
  disk := disk_reorders
  path := rfl
  root := @Tree.Reorders.entry [] [] _ _ _ (.of_perm (.swap _ _ []) (by decide))

theorem same_verdict : (disk text).WellFormed ∧
    (schema "p" "q").Reorders (disk text) (disk text') (schema "q" "p") ∧
    (schema "p" "q").AtMost (disk text) .empty 63 ∧
    Verdict.of ((schema "q" "p").validate (fun _ => []) (disk text') .empty).1 =
      Verdict.of ((schema "p" "q").validate (fun _ => []) (disk text) .empty).1 := by
  have hd : (disk text).WellFormed := by decide +kernel
  have hn : (schema "p" "q").AtMost (disk text) .empty 63 := by
    obtain ⟨keys, hlen, hkeys⟩ := atMost_checked hd (g := fun _ => []) (r := .empty)
      (s := schema "p" "q") (by decide +kernel)
    exact ⟨keys, hlen.trans (by decide +kernel), hkeys⟩
  exact ⟨hd, reorders, hn, Schema.verdict_reorders hd reorders hn fun _ _ _ => Iff.rfl⟩

end Shuffle

end Schemata
