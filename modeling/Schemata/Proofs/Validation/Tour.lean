import Schemata.Proofs.Validation.Graph
import Schemata.Proofs.Validation.Steps

/-!
# Touring a document

A tour of a tree follows every reference in it, in the order of the walk and whenever it is met, and
goes on through the tree of its target. It lists the targets that it comes to with the places where
it does, so that the first stop at a target is the first place of the document that leads there.
-/

namespace Schemata

open Relation

namespace Tree

/-- The references in a tree and their places, in the order of the walk. -/
def sites (t : Tree) (base : TreePath) : List (TreePath × String) :=
  match t with
  | .mapping es =>
    match (Tree.mapping es).reference? with
    | some raw => [(base, raw)]
    | none => (Position.all es).attach.flatMap fun p => sites p.1.2 (base ++ p.1.1)
  | _ => []
termination_by t.size
decreasing_by exact Position.size_lt p.2

def undeclaredWithin (t : Tree) (base : TreePath) : List Violation :=
  match t with
  | .mapping es =>
    match (Tree.mapping es).reference? with
    | some _ => []
    | none =>
      (undeclared es).map (·.under base) ++
        (Position.all es).attach.flatMap fun p => undeclaredWithin p.1.2 (base ++ p.1.1)
  | _ => []
termination_by t.size
decreasing_by exact Position.size_lt p.2

/-- The violations of a tree itself, seen from the document that has it at a place. -/
def faults (g : Tree → List Violation) (t : Tree) (base : TreePath) : List Violation :=
  (g t).map (·.under base) ++ t.undeclaredWithin base

variable {es : Entries} {t : Tree} {base : TreePath}

theorem sites_reference {raw : String} (h : (mapping es).reference? = some raw) :
    (mapping es).sites base = [(base, raw)] := by
  rw [sites, h]

theorem sites_inside (h : (mapping es).reference? = none) : (mapping es).sites base =
    (Position.all es).attach.flatMap fun p => p.1.2.sites (base ++ p.1.1) := by
  rw [sites, h]

theorem sites_scalar (h : ∀ es, t ≠ mapping es) : t.sites base = [] := by
  rw [sites]
  exact h

theorem undeclaredWithin_reference {raw : String} (h : (mapping es).reference? = some raw) :
    (mapping es).undeclaredWithin base = [] := by
  rw [undeclaredWithin, h]

theorem undeclaredWithin_inside (h : (mapping es).reference? = none) :
    (mapping es).undeclaredWithin base = (undeclared es).map (·.under base) ++
      (Position.all es).attach.flatMap fun p => p.1.2.undeclaredWithin (base ++ p.1.1) := by
  rw [undeclaredWithin, h]

theorem undeclaredWithin_scalar (h : ∀ es, t ≠ mapping es) : t.undeclaredWithin base = [] := by
  rw [undeclaredWithin]
  exact h

theorem exists_mem_sites {raw : String} :
    (∃ p, (p, raw) ∈ t.sites base) ↔ t.Refers raw := by
  induction t, base using Walk.through_induct with
  | scalar t base hm => simp [sites_scalar hm, not_refers hm]
  | reference es base raw' hr => simp [sites_reference hr, refers_of_reference? hr]
  | inside es base hr ih =>
    rw [sites_inside hr, refers_of_inside hr]
    constructor
    · rintro ⟨p, hp⟩
      obtain ⟨q, -, hq⟩ := List.mem_flatMap.1 hp
      exact ⟨_, Position.exists_mem_all.1 ⟨q.1, q.2, rfl⟩, (ih q.1 q.2).1 ⟨p, hq⟩⟩
    · rintro ⟨u, hu, hraw⟩
      obtain ⟨q, hq, rfl⟩ := Position.exists_mem_all.2 hu
      obtain ⟨p, hp⟩ := (ih q hq).2 hraw
      exact ⟨p, List.mem_flatMap.2 ⟨⟨q, hq⟩, List.mem_attach _ _, hp⟩⟩

end Tree

/-- A target and the place from which a tour comes to it. -/
abbrev Stop := TreePath × Target

/-- The tour of references that are written in a file at some sites. -/
inductive Tour (d : Disk) (r : Resolver) :
    FilePath → List (TreePath × String) → List Stop → Prop
  | nil {file} : Tour d r file [] []
  | cons {file base raw sites b inner rest} (hb : (r.resolveIn d raw file).1 = .ok b)
    (hi : Tour d r b.key.file (b.value.sites (base ++ [.key "$ref"])) inner)
    (hr : Tour d r file sites rest) :
    Tour d r file ((base, raw) :: sites) ((base ++ [.key "$ref"], b) :: inner ++ rest)

namespace Tour

variable {d : Disk} {r : Resolver} {file : FilePath} {sites sites' : List (TreePath × String)}
  {tour tour' : List Stop} {a b : Target} {base : TreePath}

theorem unique (h : Tour d r file sites tour) (h' : Tour d r file sites tour') : tour = tour' := by
  induction h generalizing tour' with
  | nil =>
    cases h'
    rfl
  | cons hb _ _ ihi ihr =>
    cases h' with
    | cons hb' hi' hr' =>
      rw [hb] at hb'
      cases hb'
      rw [ihi hi', ihr hr']

theorem split (h : Tour d r file (sites ++ sites') tour) : ∃ first rest, tour = first ++ rest ∧
    Tour d r file sites first ∧ Tour d r file sites' rest := by
  induction sites generalizing tour with
  | nil => exact ⟨[], tour, rfl, .nil, h⟩
  | cons site sites ih =>
    cases h with
    | cons hb hi hr =>
      obtain ⟨first, rest, rfl, hfirst, hrest⟩ := ih hr
      exact ⟨_, rest, by simp, .cons hb hi hfirst, hrest⟩

/-- A tour comes to the target of each site and makes the tour of it. -/
theorem mem_of_site {raw : String} (h : Tour d r file sites tour) (hs : (base, raw) ∈ sites)
    (hb : (r.resolveIn d raw file).1 = .ok b) : (base ++ [.key "$ref"], b) ∈ tour ∧
      ∃ inner, inner ⊆ tour ∧
        Tour d r b.key.file (b.value.sites (base ++ [.key "$ref"])) inner := by
  induction h with
  | nil => cases hs
  | @cons file base' raw' sites b' inner rest hb' hi _ _ ih =>
    rcases List.mem_cons.1 hs with he | hs
    · cases he
      rw [hb] at hb'
      cases hb'
      exact ⟨List.mem_cons_self, inner, fun x hx => by simp [hx], hi⟩
    · obtain ⟨hm, inner', hsub, hi'⟩ := ih hs hb
      exact ⟨by simp [hm], inner', fun x hx => by simp [hsub hx], hi'⟩

theorem leads (h : Tour d r file sites tour) (hf : a.key.file = file)
    (hs : ∀ site ∈ sites, a.value.Refers site.2) {x : Stop} (hx : x ∈ tour) :
    TransGen (Leads d r) a x.2 := by
  induction h generalizing a with
  | nil => cases hx
  | @cons file base raw sites b inner rest hb _ _ ihi ihr =>
    have hl : Leads d r a b := ⟨raw, hs _ List.mem_cons_self, hf ▸ hb⟩
    rcases List.mem_append.1 hx with hx | hx
    · rcases List.mem_cons.1 hx with rfl | hx
      · exact .single hl
      · refine .head hl (ihi rfl (fun site hsite => ?_) hx)
        exact Tree.exists_mem_sites.1 ⟨site.1, hsite⟩
    · exact ihr hf (fun site hsite => hs site (List.mem_cons_of_mem _ hsite)) hx

/-- A tour of a tree comes to all that the tree leads to. -/
theorem exists_stop (h : Tour d r a.key.file (a.value.sites base) tour)
    (hl : TransGen (Leads d r) a b) : ∃ x ∈ tour, x.2 = b := by
  induction hl using TransGen.head_induction_on generalizing base tour with
  | single hl =>
    obtain ⟨raw, hraw, hb⟩ := hl
    obtain ⟨p, hp⟩ := Tree.exists_mem_sites.2 hraw
    exact ⟨_, (h.mem_of_site hp hb).1, rfl⟩
  | head hl _ ih =>
    obtain ⟨raw, hraw, hb⟩ := hl
    obtain ⟨p, hp⟩ := Tree.exists_mem_sites.2 hraw
    obtain ⟨-, inner, hsub, hi⟩ := h.mem_of_site hp hb
    obtain ⟨x, hx, he⟩ := ih hi
    exact ⟨x, hsub hx, he⟩

theorem exists_of_sites (h : ∀ site ∈ sites, ∃ b, (r.resolveIn d site.2 file).1 = .ok b ∧
    ∀ base, ∃ tour, Tour d r b.key.file (b.value.sites base) tour) :
    ∃ tour, Tour d r file sites tour := by
  induction sites with
  | nil => exact ⟨[], .nil⟩
  | cons site sites ih =>
    obtain ⟨b, hb, ht⟩ := h site List.mem_cons_self
    obtain ⟨inner, hi⟩ := ht (site.1 ++ [.key "$ref"])
    obtain ⟨rest, hr⟩ := ih fun site hs => h site (List.mem_cons_of_mem _ hs)
    exact ⟨_, .cons hb hi hr⟩

/-- Settled nodes have tours. -/
theorem exists_of_settled {done : List Target} (h : Settled d r done) (ha : a ∈ done)
    (base : TreePath) : ∃ tour, Tour d r a.key.file (a.value.sites base) tour := by
  induction h generalizing a base with
  | nil => cases ha
  | concat _ hlast ih =>
    rcases List.mem_append.1 ha with ha | ha
    · exact ih ha base
    · cases List.mem_singleton.1 ha
      refine exists_of_sites fun site hs => ?_
      obtain ⟨b, hb, he⟩ := hlast site.2 (Tree.exists_mem_sites.1 ⟨site.1, hs⟩)
      exact ⟨b, he, fun base => ih hb base⟩

end Tour

/-- The stops at keys that are not seen before, neither earlier in the tour nor in another list. -/
def firsts (seen : List ResolutionKey) : List Stop → List Stop
  | [] => []
  | x :: tour => if x.2.key ∈ seen then firsts seen tour else x :: firsts (x.2.key :: seen) tour

section Firsts

variable {seen seen' : List ResolutionKey} {tour tour' : List Stop} {x : Stop} {k : ResolutionKey}

def keysOf (tour : List Stop) : List ResolutionKey := tour.map (·.2.key)

theorem firsts_congr (h : ∀ k, k ∈ seen ↔ k ∈ seen') : firsts seen tour = firsts seen' tour := by
  induction tour generalizing seen seen' with
  | nil => rfl
  | cons x tour ih =>
    rw [firsts, firsts]
    simp only [h]
    have hx : firsts (x.2.key :: seen) tour = firsts (x.2.key :: seen') tour :=
      ih fun k => by simp [h]
    rw [ih h, hx]

theorem mem_seen_or_firsts : k ∈ seen ∨ k ∈ keysOf (firsts seen tour) ↔
    k ∈ seen ∨ k ∈ keysOf tour := by
  induction tour generalizing seen with
  | nil => rfl
  | cons x tour ih =>
    rw [firsts]
    by_cases hx : x.2.key ∈ seen
    · rw [if_pos hx, ih]
      constructor
      · exact Or.imp_right fun h => List.mem_cons_of_mem _ h
      · rintro (h | h)
        · exact .inl h
        · rcases List.mem_cons.1 h with rfl | h
          · exact .inl hx
          · exact .inr h
    · rw [if_neg hx]
      have := @ih (x.2.key :: seen)
      simp only [keysOf, List.map_cons, List.mem_cons] at this ⊢
      tauto

theorem firsts_append : firsts seen (tour ++ tour') =
    firsts seen tour ++ firsts (seen ++ keysOf (firsts seen tour)) tour' := by
  induction tour generalizing seen with
  | nil => simp [firsts, keysOf]
  | cons x tour ih =>
    rw [List.cons_append, firsts, firsts]
    split
    · exact ih
    · rw [ih, List.cons_append]
      refine congrArg _ (congrArg _ (firsts_congr fun k => ?_))
      simp [keysOf]
      tauto

theorem firsts_eq_nil (h : ∀ x ∈ tour, x.2.key ∈ seen) : firsts seen tour = [] := by
  induction tour with
  | nil => rfl
  | cons x tour ih =>
    rw [firsts, if_pos (h x List.mem_cons_self)]
    exact ih fun y hy => h y (List.mem_cons_of_mem _ hy)

/-- It does not matter whether a key was seen that the tour does not come to. -/
theorem firsts_cons (h : k ∉ keysOf tour) : firsts (k :: seen) tour = firsts seen tour := by
  induction tour generalizing seen with
  | nil => rfl
  | cons x tour ih =>
    obtain ⟨hx, ht⟩ := not_or.1 (mt List.mem_cons.2 h)
    rw [firsts, firsts]
    simp only [List.mem_cons, Ne.symm hx, false_or]
    rw [ih ht, ← @ih (x.2.key :: seen) ht]
    refine ite_congr rfl (fun _ => rfl) fun _ => congrArg _ (firsts_congr fun l => ?_)
    simp only [List.mem_cons]
    tauto

theorem nodup_firsts : (keysOf (firsts seen tour)).Nodup ∧
    ∀ k ∈ keysOf (firsts seen tour), k ∉ seen := by
  induction tour generalizing seen with
  | nil => simp [firsts, keysOf]
  | cons x tour ih =>
    rw [firsts]
    split
    · exact ih
    · rename_i hx
      obtain ⟨hn, hs⟩ := @ih (x.2.key :: seen)
      refine ⟨List.nodup_cons.2 ⟨fun hm => hs _ hm List.mem_cons_self, hn⟩, fun k hk => ?_⟩
      rcases List.mem_cons.1 hk with rfl | hk
      · exact hx
      · exact fun h => hs k hk (List.mem_cons_of_mem _ h)

theorem mem_firsts : x ∈ firsts seen tour ↔
    x.2.key ∉ seen ∧ tour.find? (·.2.key = x.2.key) = some x := by
  induction tour generalizing seen with
  | nil => simp [firsts]
  | cons y tour ih =>
    rw [firsts]
    by_cases hxy : y.2.key = x.2.key
    · rw [List.find?_cons_of_pos (by simpa using hxy)]
      split
      · rename_i hy
        rw [ih]
        simp [← hxy, hy]
      · rename_i hy
        rw [List.mem_cons, ih, Option.some.injEq]
        simp [← hxy, hy, eq_comm]
    · rw [List.find?_cons_of_neg (by simpa using hxy)]
      have hne : x ≠ y := fun h => hxy (h ▸ rfl)
      split
      · exact ih
      · rw [List.mem_cons, ih, List.mem_cons]
        simp [hne, Ne.symm hxy]

end Firsts

end Schemata
