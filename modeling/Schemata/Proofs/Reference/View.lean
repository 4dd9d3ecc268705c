import Schemata.Proofs.File.Loading
import Schemata.Proofs.File.Order
import Schemata.Reference.Resolver

/-!
# What a resolver sees of the files

A resolver gives each file a document, kept or read. Keeping documents is meant to go unnoticed:
among files in a scope where one path has one document, a resolver that keeps what it has read
agrees with the resolver that it came from.
-/

namespace Schemata

namespace Resolver

variable {d : Disk} {scope : FilePath → Prop} {r r' : Resolver} {f g : FilePath} {t : Tree}

theorem same_congr (h : f.same g) :
    (fun e : FilePath × Tree => e.1.same f) = fun e => e.1.same g := by
  funext e
  rw [Bool.eq_iff_iff, FilePath.same_iff_parts, FilePath.same_iff_parts,
    FilePath.same_iff_parts.1 h]

theorem cached?_congr (h : f.same g) : r.cached? f = r.cached? g := by
  rw [cached?, cached?, same_congr h]

/-- Replacing documents in place leaves their files where they are. -/
theorem find?_replaced (cache : List (FilePath × Tree)) (g : FilePath) (t : Tree) (f : FilePath) :
    (cache.map fun e => if e.1.same g then (e.1, t) else e).find? (·.1.same f) =
      (cache.find? (·.1.same f)).map fun e => if e.1.same g then (e.1, t) else e := by
  rw [List.find?_map]
  congr 2
  funext e
  rw [Function.comp_apply]
  split <;> rfl

theorem cached?_put_self (h : g.same f) : (r.put g t).cached? f = some t := by
  rw [← cached?_congr h, put]
  by_cases hm : r.cache.any (·.1.same g)
  · obtain ⟨e, he⟩ := Option.isSome_iff_exists.1 (List.find?_isSome.2 (List.any_eq_true.1 hm))
    have hs := List.find?_some he
    rw [if_pos hm, cached?, find?_replaced, he]
    simp only [Option.map_some, hs, if_true]
  · have hn : r.cache.find? (·.1.same g) = none := by
      rw [List.find?_eq_none]
      intro e he hs
      exact hm (List.any_eq_true.2 ⟨e, he, hs⟩)
    rw [if_neg hm, cached?, List.find?_append, hn]
    simp [FilePath.same_iff_parts]

theorem cached?_put_other (h : ¬ g.same f) : (r.put g t).cached? f = r.cached? f := by
  rw [put]
  split
  · rw [cached?, cached?, find?_replaced, Option.map_map]
    cases he : r.cache.find? (·.1.same f) with
    | none => rfl
    | some e =>
      have hs := List.find?_some he
      have hn : ¬ e.1.same g := by
        rw [FilePath.same_iff_parts] at h ⊢
        intro hg
        exact h (hg.symm.trans (FilePath.same_iff_parts.1 hs))
      simp [hn]
  · rw [cached?, cached?, List.find?_append]
    simp [h]

@[simp] theorem idBase_put (r : Resolver) (g : FilePath) (t : Tree) :
    (r.put g t).idBase = r.idBase := by
  unfold put
  split <;> rfl

theorem document_put_self (h : g.same f) : (r.put g t).document d f = .ok t := by
  rw [document, cached?_put_self h]

theorem document_put_other (h : ¬ g.same f) : (r.put g t).document d f = r.document d f := by
  rw [document, document, cached?_put_other h]

/-- Files that references cannot lead out of, with one document for one path. -/
structure Closed (d : Disk) (scope : FilePath → Prop) (r : Resolver) : Prop where
  canonical : ∀ {p q}, d.canonical p = .ok q → scope q
  document : ∀ {f g t}, scope f → scope g → f.same g → r.document d f = .ok t →
    r.document d g = .ok t

/-- Two resolvers with the same documents for all files in scope. -/
structure Agrees (d : Disk) (scope : FilePath → Prop) (r r' : Resolver) : Prop where
  idBase : r'.idBase = r.idBase
  document : ∀ f, scope f → r'.document d f = r.document d f

theorem Agrees.refl (d : Disk) (scope : FilePath → Prop) (r : Resolver) : Agrees d scope r r :=
  ⟨rfl, fun _ _ => rfl⟩

theorem Agrees.trans {r'' : Resolver} (h : Agrees d scope r r') (h' : Agrees d scope r' r'') :
    Agrees d scope r r'' :=
  ⟨h'.idBase.trans h.idBase, fun f hf => (h'.document f hf).trans (h.document f hf)⟩

theorem Closed.of_agrees (hc : Closed d scope r) (h : Agrees d scope r r') : Closed d scope r' where
  canonical := hc.canonical
  document {f g t} hf hg hs ht := by
    rw [h.document f hf] at ht
    rw [h.document g hg]
    exact hc.document hf hg hs ht

theorem Agrees.put (hc : Closed d scope r) (hg : scope g) (ht : r.document d g = .ok t) :
    Agrees d scope r (r.put g t) := by
  refine ⟨idBase_put r g t, fun f hf => ?_⟩
  by_cases hs : g.same f
  · rw [document_put_self hs, hc.document hg hf hs ht]
  · exact document_put_other hs

theorem Agrees.keep (hc : Closed d scope r) (hg : scope g) (ht : r.document d g = .ok t) :
    Agrees d scope r (r.keep g t) := by
  unfold Resolver.keep
  split
  · exact .refl d scope r
  · exact .put hc hg ht

end Resolver

end Schemata
