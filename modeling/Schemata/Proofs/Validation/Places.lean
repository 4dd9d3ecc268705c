import Schemata.Grammar.Check
import Schemata.Proofs.Tree.Writing
import Schemata.Proofs.Validation.Anchors

/-!
# What the paths of violations lead to

The path of a violation can be followed from the root of the document. A key leads to an entry and
an index to an item; the key of a reference may also lead on to the target of the reference, as
resolved from the file that it is written in. What the walk finds is at a name that a schema
requires and does not declare, and what the grammar finds is where the grammar says, provided that
the grammar names places of the tree that it was given.
-/

namespace Schemata

open Relation

/-- From a tree in a file, a path leads to another one. -/
inductive Way (d : Disk) (r : Resolver) : FilePath → Tree → TreePath → FilePath → Tree → Prop
  | here {file t} : Way d r file t [] file t
  | key {file es k t p file' u} (hk : (k, t) ∈ es) (next : Way d r file t p file' u) :
    Way d r file (.mapping es) (.key k :: p) file' u
  | index {file items i t p file' u} (hi : items[i]? = some t) (next : Way d r file t p file' u) :
    Way d r file (.list items) (.index i :: p) file' u
  | cross {file t raw b p file' u} (hr : t.reference? = some raw)
    (hb : (r.resolveIn d raw file).1 = .ok b) (next : Way d r b.key.file b.value p file' u) :
    Way d r file t (.key "$ref" :: p) file' u

namespace Way

variable {d : Disk} {r : Resolver} {file file' file'' : FilePath} {t u v : Tree} {p q : TreePath}
  {es : Entries}

theorem trans (h : Way d r file t p file' u) (h' : Way d r file' u q file'' v) :
    Way d r file t (p ++ q) file'' v := by
  induction h with
  | here => exact h'
  | key hk _ ih => exact .key hk (ih h')
  | index hi _ ih => exact .index hi (ih h')
  | cross hr hb _ ih => exact .cross hr hb (ih h')

theorem of_at? (h : t.at? p = some u) : Way d r file t p file u := by
  fun_induction Tree.at? t p with
  | case1 t =>
    cases h
    exact .here
  | case2 es k rest ih =>
    obtain ⟨v, hv, h⟩ := Option.bind_eq_some_iff.1 h
    exact .key (Entries.mem_of_get? hv) (ih v h)
  | case3 items i rest ih =>
    obtain ⟨v, hv, h⟩ := Option.bind_eq_some_iff.1 h
    exact .index hv (ih v h)
  | case4 => cases h

theorem of_mem_ofItems {keyword : String} {items : List Tree} {x : Position}
    (hg : Entries.get? es keyword = some (.list items)) (hx : x ∈ Position.ofItems keyword items) :
    Way d r file (.mapping es) x.1 file x.2 := by
  obtain ⟨c, hc, rfl⟩ := List.mem_map.1 hx
  exact .key (Entries.mem_of_get? hg) (.index (List.mk_mem_zipIdx_iff_getElem?.1 hc) .here)

theorem of_mem_all {x : Position} (hx : x ∈ Position.all es) :
    Way d r file (.mapping es) x.1 file x.2 := by
  simp only [Position.all, List.mem_append, List.mem_flatMap] at hx
  rcases hx with ((⟨k, -, hx⟩ | ⟨k, -, hx⟩) | ⟨k, -, hx⟩) | hx
  · unfold Position.ofKeyword at hx
    split at hx
    · rename_i hg
      cases List.mem_singleton.1 hx
      exact .key (Entries.mem_of_get? hg) .here
    · cases hx
  · unfold Position.ofNames at hx
    split at hx
    · rename_i hg
      obtain ⟨c, hc, rfl⟩ := List.mem_map.1 hx
      exact .key (Entries.mem_of_get? hg) (.key hc .here)
    · cases hx
  · unfold Position.ofList at hx
    split at hx
    · rename_i hg
      exact of_mem_ofItems hg hx
    · cases hx
  · unfold Position.ofEither at hx
    split at hx
    · rename_i hg
      exact of_mem_ofItems hg hx
    · rename_i hg
      cases List.mem_singleton.1 hx
      exact .key (Entries.mem_of_get? hg) .here
    · cases hx

/-- References are where their sites say. -/
theorem of_mem_sites {base : TreePath} {site : TreePath × String} (h : site ∈ t.sites base) :
    ∃ p u, site.1 = base ++ p ∧ Way d r file t p file u ∧ u.reference? = some site.2 := by
  induction t, base using Walk.through_induct with
  | scalar t base hm =>
    rw [Tree.sites_scalar hm] at h
    cases h
  | reference es base raw hr =>
    rw [Tree.sites_reference hr] at h
    cases List.mem_singleton.1 h
    exact ⟨[], _, by simp, .here, hr⟩
  | inside es base hr ih =>
    rw [Tree.sites_inside hr] at h
    obtain ⟨x, -, hx⟩ := List.mem_flatMap.1 h
    obtain ⟨p, u, hp, hw, hu⟩ := ih x.1 x.2 hx
    exact ⟨x.1.1 ++ p, u, by rw [hp, List.append_assoc], (of_mem_all x.2).trans hw, hu⟩

theorem of_mem_undeclaredWithin {base : TreePath} {v : Violation}
    (h : v ∈ t.undeclaredWithin base) : ∃ p es, Way d r file t p file (.mapping es) ∧
      t.Holds (.mapping es) ∧ (Tree.mapping es).reference? = none ∧
      ∃ v' ∈ undeclared es, v = v'.under (base ++ p) := by
  induction t, base using Walk.through_induct with
  | scalar t base hm =>
    rw [Tree.undeclaredWithin_scalar hm] at h
    cases h
  | reference es base raw hr =>
    rw [Tree.undeclaredWithin_reference hr] at h
    cases h
  | inside es base hr ih =>
    rw [Tree.undeclaredWithin_inside hr] at h
    rcases List.mem_append.1 h with h | h
    · obtain ⟨v', hv', rfl⟩ := List.mem_map.1 h
      exact ⟨[], es, .here, .here _, hr, v', hv', by rw [List.append_nil]⟩
    · obtain ⟨x, -, hx⟩ := List.mem_flatMap.1 h
      obtain ⟨p, es', hw, hholds, hr', v', hv', rfl⟩ := ih x.1 x.2 hx
      refine ⟨x.1.1 ++ p, es', (of_mem_all x.2).trans hw, ?_, hr', v', hv', ?_⟩
      · exact .inside hr (Position.exists_mem_all.1 ⟨x.1, x.2, rfl⟩) hholds
      · rw [List.append_assoc]

end Way

theorem mem_undeclared {es : Entries} {v : Violation} (h : v ∈ undeclared es) :
    ∃ names i name, Entries.get? es "required" = some (.list names) ∧
      names[i]? = some (.string name) ∧ declares es name = false ∧
      v = ⟨[.key "required", .index i], undeclaredMessage name⟩ := by
  unfold undeclared at h
  split at h
  · rename_i names hn
    obtain ⟨⟨t, i⟩, hi, hv⟩ := List.mem_filterMap.1 h
    split at hv
    · rename_i name ht
      obtain ⟨hd, hv⟩ := Option.ite_none_left_eq_some.1 hv
      cases ht
      exact ⟨names, i, name, hn, List.mk_mem_zipIdx_iff_getElem?.1 hi, by simpa using hd,
        (Option.some.inj hv).symm⟩
    · cases hv
  · cases h

/-- A tour from sites in a document comes to each of its stops by the path that it says. -/
theorem Tour.way {d : Disk} {r : Resolver} {home file : FilePath} {root : Tree}
    {sites : List (TreePath × String)} {tour : List Stop} (h : Tour d r file sites tour)
    (hs : ∀ site ∈ sites, ∃ t, Way d r home root site.1 file t ∧ t.reference? = some site.2)
    {x : Stop} (hx : x ∈ tour) : Way d r home root x.1 x.2.key.file x.2.value := by
  induction h with
  | nil => cases hx
  | @cons file base raw sites b inner rest hb _ _ ihi ihr =>
    obtain ⟨t, hway, ht⟩ := hs _ List.mem_cons_self
    have here : Way d r home root (base ++ [.key "$ref"]) b.key.file b.value :=
      hway.trans (.cross ht hb .here)
    rcases List.mem_append.1 hx with hx | hx
    · rcases List.mem_cons.1 hx with rfl | hx
      · exact here
      · refine ihi (fun site hsite => ?_) hx
        obtain ⟨p, u, hp, hw, hu⟩ := Way.of_mem_sites hsite
        exact ⟨u, hp ▸ here.trans hw, hu⟩
    · exact ihr (fun site hsite => hs site (List.mem_cons_of_mem _ hsite)) hx

/-- The violations of a tree, from errors that give places and messages. A place is written as a
pointer, which is read in the tree again. -/
def Violation.ofErrors (errors : Tree → List (TreePath × String)) (t : Tree) : List Violation :=
  (errors t).map fun e => ⟨.ofPointer e.1.pointer t, e.2⟩

/-- Errors are at places of the tree that they are about. Indices are of 64 bits. -/
def InPlace (errors : Tree → List (TreePath × String)) : Prop :=
  ∀ t, ∀ e ∈ errors t, (∀ i, .index i ∈ e.1 → i < 2 ^ 64) ∧ ∃ u, t.at? e.1 = some u

theorem InPlace.ofErrors_eq {errors : Tree → List (TreePath × String)} (h : InPlace errors)
    (t : Tree) : Violation.ofErrors errors t = (errors t).map fun e => ⟨e.1, e.2⟩ := by
  refine List.map_congr_left fun e he => ?_
  obtain ⟨small, u, hu⟩ := h t e he
  rw [TreePath.ofPointer_pointer small hu]

variable {errors : Tree → List (TreePath × String)} {d : Disk} {r : Resolver} {s : Schema}

/-- Where a violation of a document comes from, and what its path leads to. -/
inductive Schema.Finds (errors : Tree → List (TreePath × String)) (d : Disk) (r : Resolver)
    (s : Schema) (v : Violation) : Prop
  /-- The tree at a target that the document comes to has an error. -/
  | error {base a p u} (reached : s.Reaches d r a)
    (anchor : Way d (s.resolver d r) (s.target d).key.file s.root base a.key.file a.value)
    (found : (p, v.message) ∈ errors a.value) (there : a.value.at? p = some u)
    (path : v.path = base ++ p)
    (way : Way d (s.resolver d r) (s.target d).key.file s.root v.path a.key.file u)
  /-- A schema in such a tree requires a name that its properties lack. -/
  | required {base a es names i name} (reached : s.Reaches d r a)
    (anchor : Way d (s.resolver d r) (s.target d).key.file s.root base a.key.file (.mapping es))
    (schema : a.value.Holds (.mapping es)) (whole : (Tree.mapping es).reference? = none)
    (requires : Entries.get? es "required" = some (.list names))
    (named : names[i]? = some (.string name))
    (lacking : ∀ ps, Entries.get? es "properties" = some (.mapping ps) → name ∉ Entries.keys ps)
    (path : v.path = base ++ [.key "required", .index i])
    (message : v.message = undeclaredMessage name)
    (way : Way d (s.resolver d r) (s.target d).key.file s.root v.path a.key.file (.string name))

/-- The violations of a target itself are found where its tree has them, beneath its anchor. -/
theorem Schema.finds_of_mem_faults (herrors : InPlace errors) {a : Target} {base : TreePath}
    (ha : s.Reaches d r a)
    (hbase : Way d (s.resolver d r) (s.target d).key.file s.root base a.key.file a.value)
    {v : Violation} (hv : v ∈ a.value.faults (Violation.ofErrors errors) base) :
    s.Finds errors d r v := by
  rcases List.mem_append.1 hv with hv | hv
  · rw [herrors.ofErrors_eq, List.map_map] at hv
    obtain ⟨e, he, rfl⟩ := List.mem_map.1 hv
    obtain ⟨-, u, hu⟩ := herrors a.value e he
    exact .error ha hbase he hu rfl (hbase.trans (.of_at? hu))
  · obtain ⟨p, es, hway, hholds, href, v', hv', rfl⟩ := Way.of_mem_undeclaredWithin hv
    obtain ⟨names, i, name, hrequired, hname, hlacks, rfl⟩ := mem_undeclared hv'
    have node := hbase.trans hway
    refine .required ha node hholds href hrequired hname (fun ps hps hmem => ?_) rfl rfl ?_
    · exact absurd (declares_iff.2 ⟨ps, hps, hmem⟩) (by simp [hlacks])
    · exact node.trans (.key (Entries.mem_of_get? hrequired) (.index hname .here))

/-- If a validation comes to its end, the path of each violation can be followed from the root of
the document, to what has the error, or to the name that is required but not declared. -/
theorem Schema.finds_of_validate (hd : d.WellFormed) (herrors : InPlace errors)
    {vs : List Violation} (h : (s.validate (Violation.ofErrors errors) d r).1 = .ok vs) :
    ∀ v ∈ vs, s.Finds errors d r v := by
  obtain ⟨all, hall, hmem, -, -⟩ := exists_settled hd h
  obtain ⟨tour, ht⟩ := Tour.exists_of_settled hall hmem []
  obtain ⟨w, hrun, hvs⟩ := validate_eq_ok.1 h
  have hw : w.violations.Perm (s.root.faults (Violation.ofErrors errors) [] ++
      (firsts [] tour).flatMap fun x => x.2.value.faults (Violation.ofErrors errors) x.1) :=
    (adds_run hd hrun ht).violations
  intro v hv
  rw [hvs, Violation.mem_canonical, hw.mem_iff, List.mem_append, List.mem_flatMap] at hv
  rcases hv with hv | ⟨x, hx, hv⟩
  · exact finds_of_mem_faults (a := s.target d) herrors .refl .here hv
  · have hstop : x ∈ tour := List.mem_of_find?_eq_some (mem_firsts.1 hx).2
    have hreach := ht.leads (a := s.target d) rfl
      (fun site hs => Tree.exists_mem_sites.1 ⟨site.1, hs⟩) hstop
    refine finds_of_mem_faults herrors hreach.to_reflTransGen (ht.way (fun site hs => ?_) hstop) hv
    obtain ⟨p, u, hp, hway, hu⟩ := Way.of_mem_sites hs
    exact ⟨u, by rwa [hp, List.nil_append], hu⟩

def Ward.found (t : Tree) : List (TreePath × String) :=
  ((draft07 t).filter fun v => (t.at? v.path).isSome &&
    v.path.all fun | .index i => i < 2 ^ 64 | .key _ => true).map fun v => (v.path, v.message)

theorem Ward.inPlace : InPlace found := by
  intro t e he
  obtain ⟨v, hv, rfl⟩ := List.mem_map.1 he
  obtain ⟨-, hv⟩ := List.mem_filter.1 hv
  rw [Bool.and_eq_true, List.all_eq_true, Option.isSome_iff_exists] at hv
  exact ⟨fun i hi => by simpa using hv.2 _ hi, hv.1⟩

/-- A document with a part that has a number for a description, and requires a name in vain. -/
def Ward.disk : Disk :=
  ⟨[(["b.json"], .file (.text
    "\x7b\"defs\":[\x7b\"description\":1,\"not\":\x7b\"required\":[\"m\"]\x7d\x7d]\x7d"))], []⟩

def Ward.schema : Schema :=
  .ofTree ⟨"/a.json"⟩ ⟨"/"⟩ (.mapping [("properties", .mapping [("x/y",
    .mapping [("$ref", .string "b.json#/defs/0")])])])

def Ward.anchor : TreePath := [.key "properties", .key "x/y", .key "$ref"]

def Ward.violations : List Violation :=
  [⟨anchor ++ [.key "description"], "1 is not of type \"string\""⟩,
    ⟨anchor ++ [.key "not", .key "required", .index 0],
      "\"m\" is required but not declared in properties"⟩]

theorem Ward.pointed : disk.WellFormed ∧ InPlace found ∧
    (schema.validate (Violation.ofErrors found) disk .empty).1 = .ok violations ∧
    ∀ v ∈ violations, schema.Finds found disk .empty v := by
  have hd : disk.WellFormed := by decide +kernel
  have h : (schema.validate (Violation.ofErrors found) disk .empty).1 = .ok violations :=
    Schema.validate_eq_of_run (by decide +kernel) (by decide +kernel) (by decide +kernel)
  exact ⟨hd, inPlace, h, Schema.finds_of_validate hd inPlace h⟩

end Schemata
