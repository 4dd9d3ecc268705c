import Mathlib.Algebra.GroupWithZero.Nat
import Mathlib.Data.List.Sort
import Schemata.Proofs.File.Order
import Schemata.Proofs.Page.Entries

/-!
# One catalog for all orders

Schemas whose paths differ can be arranged in just one way: categories in the order of their names,
and under each of them its own schemas in the order of their paths. The catalog shows that
arrangement, so that it does not depend on the order in which the schemas are given.
-/

namespace Schemata

namespace FilePath

variable {p q : FilePath}

theorem compare_self (p : FilePath) : p.compare p = .eq := Std.ReflCmp.compare_self

theorem not_lt_of_lt (h : p.compare q = .lt) : q.compare p ≠ .lt := by
  have swap : q.compare p = (p.compare q).swap := Std.OrientedCmp.eq_swap
  rw [swap, h]
  decide

theorem lt_of_isLE (h : (p.compare q).isLE) (hne : ¬ p.same q) : p.compare q = .lt := by
  rw [← compare_eq_eq] at hne
  revert h hne
  cases p.compare q <;> simp

end FilePath

namespace Catalog

variable {ss ss' : List Schema} {o : CatalogOptions} {s : Schema} {g : Category × List Schema}
  {groups groups' : List (Category × List Schema)}

/-- The path of the schema comes before that of the other one. -/
def Precedes (s t : Schema) : Prop := s.path.compare t.path = .lt

instance : DecidableRel Precedes := fun s t =>
  inferInstanceAs (Decidable (s.path.compare t.path = .lt))

instance : Std.Irrefl Precedes where
  irrefl _ h := FilePath.not_lt_of_lt h h

instance : Std.Antisymm Precedes where
  antisymm _ _ h h' := absurd h' (FilePath.not_lt_of_lt h)

/-- The groups hold every schema once, under its own category. Categories that have schemas follow
each other in the order of their names, and the schemas of each in the order of their paths. -/
structure Arranged (groups : List (Category × List Schema)) (ss : List Schema) : Prop where
  all : (groups.flatMap (·.2)).Perm ss
  own : ∀ g ∈ groups, ∀ s ∈ g.2, s.category = g.1
  names : (groups.map (·.1.name)).Pairwise (· < ·)
  nonempty : ∀ g ∈ groups, g.2 ≠ []
  paths : ∀ g ∈ groups, g.2.Pairwise Precedes

def Apart (ss : List Schema) : Prop := ss.Pairwise fun s t => ¬ s.path.same t.path

theorem Apart.perm (h : Apart ss) (hp : ss'.Perm ss) : Apart ss' :=
  (hp.pairwise_iff fun hst hts => hst (FilePath.same_symm hts)).2 h

theorem Apart.nodup (h : Apart ss) : ss.Nodup := by
  refine List.Pairwise.imp (fun {s _} hst => ?_) h
  rintro rfl
  exact hst (FilePath.same_self s.path)

namespace Arranged

theorem perm (h : Arranged groups ss') (hp : ss'.Perm ss) : Arranged groups ss :=
  { h with all := h.all.trans hp }

theorem eq_of_name {g' : Category × List Schema} (h : Arranged groups ss) (hg : g ∈ groups)
    (hg' : g' ∈ groups) (hname : g.1.name = g'.1.name) : g = g' :=
  List.inj_on_of_nodup_map (h.names.imp ne_of_lt) hg hg' hname

theorem mem_iff (h : Arranged groups ss) (hg : g ∈ groups) :
    s ∈ g.2 ↔ s ∈ ss ∧ s.category = g.1 := by
  rw [← h.all.mem_iff, List.mem_flatMap]
  constructor
  · intro hs
    exact ⟨⟨g, hg, hs⟩, h.own g hg s hs⟩
  · rintro ⟨⟨g', hg', hs⟩, hc⟩
    rw [h.own g' hg' s hs] at hc
    rwa [← h.eq_of_name hg' hg (congrArg Category.name hc)]

theorem mem_names {name : String} (h : Arranged groups ss) :
    name ∈ groups.map (·.1.name) ↔ ∃ s ∈ ss, s.category.name = name := by
  rw [List.mem_map]
  constructor
  · rintro ⟨g, hg, rfl⟩
    obtain ⟨s, hs⟩ := List.exists_mem_of_ne_nil _ (h.nonempty g hg)
    obtain ⟨hmem, hc⟩ := (h.mem_iff hg).1 hs
    exact ⟨s, hmem, congrArg Category.name hc⟩
  · rintro ⟨s, hs, rfl⟩
    rw [← h.all.mem_iff, List.mem_flatMap] at hs
    obtain ⟨g, hg, hs⟩ := hs
    exact ⟨g, hg, congrArg Category.name (h.own g hg s hs).symm⟩

/-- The names are the same in the same order, and so are the schemas under each. -/
theorem unique (h : Arranged groups ss) (h' : Arranged groups' ss) : groups = groups' := by
  have hnames : groups.map (·.1.name) = groups'.map (·.1.name) :=
    h.names.eq_of_mem_iff h'.names fun name => h.mem_names.trans h'.mem_names.symm
  have hlength : groups.length = groups'.length := by
    simpa using congrArg List.length hnames
  refine List.ext_getElem hlength fun i hi hi' => ?_
  have hname : groups[i].1.name = groups'[i].1.name := by
    have := List.getElem_of_eq hnames (by simpa using hi)
    simpa using this
  have hcategory : groups[i].1 = groups'[i].1 := congrArg Category.mk hname
  have hg := List.getElem_mem hi
  have hg' := List.getElem_mem hi'
  refine Prod.ext hcategory ((h.paths _ hg).eq_of_mem_iff (h'.paths _ hg') fun s => ?_)
  rw [h.mem_iff hg, h'.mem_iff hg', hcategory]

end Arranged

def arrangement (ss : List Schema) : List (Category × List Schema) :=
  (categories ss).map fun c => (c, members ss c)

theorem mem_members {c : Category} : s ∈ members ss c ↔ s ∈ ss ∧ s.category = c := by
  rw [members, List.mem_mergeSort, List.mem_filter, decide_eq_true_iff]

theorem Apart.members (h : Apart ss) (c : Category) : Apart (members ss c) :=
  Apart.perm (List.Pairwise.filter _ h) (List.mergeSort_perm _ _)

theorem pairwise_members (h : Apart ss) (c : Category) : (members ss c).Pairwise Precedes := by
  have hsorted : (members ss c).Pairwise fun s t => (s.path.compare t.path).isLE := by
    refine List.pairwise_mergeSort (fun s t u => ?_) (fun s t => ?_) _
    · exact FilePath.le_trans s.path t.path u.path
    · exact FilePath.le_total s.path t.path
  exact (hsorted.and (h.members c)).imp fun ⟨hle, hne⟩ => FilePath.lt_of_isLE hle hne

theorem arranged (h : Apart ss) : Arranged (arrangement ss) ss where
  all := by
    have hdisjoint : (categories ss).Pairwise fun c e =>
        (members ss c).Disjoint (members ss e) := by
      refine (pairwise_categories ss).imp fun {c e} hlt s hs hs' => ?_
      rw [← (mem_members.1 hs).2, ← (mem_members.1 hs').2] at hlt
      exact lt_irrefl _ hlt
    rw [arrangement, List.flatMap_map]
    refine (List.perm_ext_iff_of_nodup (List.nodup_flatMap.2 ⟨fun c _ => ?_, hdisjoint⟩)
      h.nodup).2 fun s => ?_
    · exact (h.members c).nodup
    · rw [List.mem_flatMap]
      constructor
      · rintro ⟨c, -, hs⟩
        exact (mem_members.1 hs).1
      · intro hs
        exact ⟨s.category, mem_categories.2 ⟨s, hs, rfl⟩, mem_members.2 ⟨hs, rfl⟩⟩
  own := by
    refine List.forall_mem_map.2 fun c _ s hs => (mem_members.1 hs).2
  names := by
    rw [arrangement, List.map_map]
    exact List.pairwise_map.2 (pairwise_categories ss)
  nonempty := by
    refine List.forall_mem_map.2 fun c hc => ?_
    obtain ⟨s, hs, rfl⟩ := mem_categories.1 hc
    exact List.ne_nil_of_mem (mem_members.2 ⟨hs, rfl⟩)
  paths := List.forall_mem_map.2 fun c _ => pairwise_members h c

def textOf (o : CatalogOptions) (groups : List (Category × List Schema)) : String :=
  unlines (openingLines o
    ++ groups.flatMap (fun g => groupLines g.1.title (g.2.map (entryLine o)))
    ++ ["## Total Schemas: " ++ toString (groups.map (·.2.length)).sum, ""])

theorem Arranged.sum_length (h : Arranged groups ss) :
    (groups.map (·.2.length)).sum = ss.length := by
  rw [← h.all.length_eq, List.length_flatMap]

theorem catalog_eq_textOf (o : CatalogOptions) (h : Apart ss) :
    catalog o ss = textOf o (arrangement ss) := by
  rw [catalog_eq, textOf, (arranged h).sum_length, arrangement, List.flatMap_map]
  rfl

/-- The catalog of schemas whose paths differ shows their one arrangement: each schema has one
entry, under its own category, categories stand in the order of their names and the entries of each
in the order of paths, with their number in front and the sum of these numbers at the end. Given in
any other order, the schemas have the same catalog. -/
theorem catalog_arranged (o : CatalogOptions)
    (h : ss.Pairwise fun s t => ¬ s.path.same t.path) :
    (∃ groups, Arranged groups ss ∧ (∀ groups', Arranged groups' ss → groups' = groups) ∧
      catalog o ss = textOf o groups) ∧
    ∀ ss', ss'.Perm ss → catalog o ss' = catalog o ss := by
  have harranged := arranged h
  refine ⟨⟨arrangement ss, harranged, fun groups' h' => h'.unique harranged,
    catalog_eq_textOf o h⟩, fun ss' hp => ?_⟩
  have hapart : Apart ss' := Apart.perm h hp
  rw [catalog_eq_textOf o hapart, catalog_eq_textOf o h,
    ((arranged hapart).perm hp).unique harranged]

def Shelf.schema (path : String) : Schema :=
  .ofTree ⟨path⟩ ⟨"o"⟩ (.mapping [("title", .string path)])

/-- Schemas of three categories, of which two have one title; a path may come before another one
when its text does not. -/
def Shelf.sorted : List (Category × List Schema) :=
  [(⟨"B"⟩, [schema "o/B/y.yaml"]), (⟨"b"⟩, [schema "o/b/y.yaml"]),
    (⟨"c"⟩, [schema "o/a/c/x.yaml", schema "o/a-z/c/z.yaml"])]

def Shelf.schemas : List Schema := (sorted.flatMap (·.2)).reverse

theorem Shelf.arranged : Arranged sorted schemas where
  all := (List.reverse_perm _).symm
  own := by decide +kernel
  names := by decide +kernel
  nonempty := by simp [sorted]
  paths := by decide +kernel

theorem Shelf.same_catalog : (schemas.Pairwise fun s t => ¬ s.path.same t.path) ∧
    ∀ ss', ss'.Perm schemas → catalog .standard ss' =
      unlines ["# Ontology Reference", "",
        "This document provides a complete reference for all schemas.", "",
        "## Schema Categories", "",
        "### B", "", "**1 schemas**", "",
        "- **[o/B/y.yaml](./B/y.md)** - No description available.", "",
        "### B", "", "**1 schemas**", "",
        "- **[o/b/y.yaml](./b/y.md)** - No description available.", "",
        "### C", "", "**2 schemas**", "",
        "- **[o/a/c/x.yaml](./c/x.md)** - No description available.",
        "- **[o/a-z/c/z.yaml](./c/z.md)** - No description available.", "",
        "## Total Schemas: 4", ""] := by
  have hapart : schemas.Pairwise fun s t => ¬ s.path.same t.path := by decide +kernel
  obtain ⟨⟨_, -, hunique, htext⟩, hperm⟩ := catalog_arranged .standard hapart
  refine ⟨hapart, fun ss' hp => ?_⟩
  rw [hperm ss' hp, htext, ← hunique sorted arranged]
  decide +kernel

end Catalog

end Schemata
