import Schemata.File.Path

/-!
# The order of paths

Paths are ordered by their parts from the first one on. The order is total, and it does not tell two
texts of one path apart.
-/

namespace Schemata

namespace PathPart

theorem compare_eq : PathPart.compare = compareLex (compareOn rank) (compareOn text) := by
  funext a b
  cases a <;> cases b <;> rfl

instance : Std.TransCmp PathPart.compare := compare_eq ▸ inferInstance

instance : Std.LawfulEqCmp PathPart.compare where
  eq_of_compare {a b} h := by
    rw [compare_eq] at h
    obtain ⟨hr, ht⟩ := Ordering.then_eq_eq.1 h
    have hr : a.rank = b.rank := Std.LawfulEqOrd.eq_of_compare hr
    have ht : a.text = b.text := Std.LawfulEqOrd.eq_of_compare ht
    cases a <;> cases b <;> first | exact congrArg name ht | rfl | cases hr

end PathPart

namespace FilePath

theorem comparePartLists_eq : comparePartLists = List.compareLex PathPart.compare := by
  funext ps qs
  induction ps generalizing qs with
  | nil => cases qs <;> rfl
  | cons a ps ih =>
    cases qs with
    | nil => rfl
    | cons b qs => rw [comparePartLists, List.compareLex_cons_cons, ih]

instance : Std.LawfulEqCmp comparePartLists := comparePartLists_eq ▸ inferInstance

instance : Std.TransCmp comparePartLists := comparePartLists_eq ▸ inferInstance

instance : Std.TransCmp FilePath.compare where
  eq_swap {p q} := Std.OrientedCmp.eq_swap (a := p.parts) (b := q.parts)
  isLE_trans {p q r} := Std.TransCmp.isLE_trans (a := p.parts) (b := q.parts) (c := r.parts)

variable {p q : FilePath}

theorem same_iff_parts : p.same q ↔ p.parts = q.parts := decide_eq_true_iff

theorem same_self (p : FilePath) : p.same p := same_iff_parts.2 rfl

theorem same_symm (h : p.same q) : q.same p := same_iff_parts.2 (same_iff_parts.1 h).symm

theorem compare_eq_eq : p.compare q = .eq ↔ p.same q := by
  rw [same_iff_parts, compare]
  exact Std.LawfulEqCmp.compare_eq_iff_eq

theorem isLE_of_same (h : p.same q) : (p.compare q).isLE := by
  rw [compare_eq_eq.2 h]
  rfl

theorem le_trans (p q r : FilePath) (h : (p.compare q).isLE) (h' : (q.compare r).isLE) :
    (p.compare r).isLE :=
  Std.TransCmp.isLE_trans h h'

theorem le_total (p q : FilePath) : ((p.compare q).isLE || (q.compare p).isLE) = true := by
  have swap : q.compare p = (p.compare q).swap := Std.OrientedCmp.eq_swap
  rw [swap]
  cases p.compare q <;> rfl

end FilePath

end Schemata
