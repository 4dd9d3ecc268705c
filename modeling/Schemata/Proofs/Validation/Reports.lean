import Schemata.Violation

/-!
# The order of reports

Violations are ordered by their places step by step, then by their messages. A report has them in
that order with none twice, so that it depends on nothing but which violations there are.
-/

namespace Schemata

instance : Std.LawfulEqCmp Step.compare where
  compare_self {a} := by
    cases a with
    | key k => exact Std.ReflOrd.compare_self (a := k)
    | index i => exact Std.ReflOrd.compare_self (a := i)
  eq_of_compare {a b} h := by
    cases a <;> cases b
    · exact congrArg Step.key (Std.LawfulEqOrd.eq_of_compare h)
    · cases h
    · cases h
    · exact congrArg Step.index (Std.LawfulEqOrd.eq_of_compare h)

instance : Std.TransCmp Step.compare where
  eq_swap {a b} := by
    cases a <;> cases b
    · exact Std.OrientedOrd.eq_swap (α := String)
    · rfl
    · rfl
    · exact Std.OrientedOrd.eq_swap (α := Nat)
  isLE_trans {a b c} h h' := by
    cases a <;> cases b <;> cases c
    · exact Std.TransOrd.isLE_trans (α := String) h h'
    · rfl
    · cases h'
    · rfl
    · cases h
    · cases h
    · cases h'
    · exact Std.TransOrd.isLE_trans (α := Nat) h h'

theorem TreePath.compare_eq : TreePath.compare = List.compareLex Step.compare := by
  funext p q
  induction p generalizing q with
  | nil => cases q <;> rfl
  | cons a p ih =>
    cases q with
    | nil => rfl
    | cons b q =>
      rw [TreePath.compare, List.compareLex_cons_cons, ih]

instance : Std.LawfulEqCmp TreePath.compare := TreePath.compare_eq ▸ inferInstance

instance : Std.TransCmp TreePath.compare := TreePath.compare_eq ▸ inferInstance

namespace Violation

instance : Std.LawfulEqCmp Violation.compare where
  compare_self {a} := by
    have hp : a.path.compare a.path = .eq := Std.ReflCmp.compare_self
    have hm : Ord.compare a.message a.message = .eq := Std.ReflOrd.compare_self
    exact Ordering.then_eq_eq.2 ⟨hp, hm⟩
  eq_of_compare {a b} h := by
    obtain ⟨hp, hm⟩ := Ordering.then_eq_eq.1 h
    have hp : a.path = b.path := Std.LawfulEqCmp.eq_of_compare hp
    have hm : a.message = b.message := Std.LawfulEqOrd.eq_of_compare hm
    cases a
    cases b
    simp_all

instance : Std.TransCmp fun a b : Violation => a.path.compare b.path where
  eq_swap {a b} := Std.OrientedCmp.eq_swap (a := a.path) (b := b.path)
  isLE_trans {a b c} := Std.TransCmp.isLE_trans (a := a.path) (b := b.path) (c := c.path)

instance : Std.TransCmp fun a b : Violation => Ord.compare a.message b.message where
  eq_swap {a b} := Std.OrientedOrd.eq_swap (a := a.message) (b := b.message)
  isLE_trans {a b c} :=
    Std.TransOrd.isLE_trans (a := a.message) (b := b.message) (c := c.message)

instance : Std.TransCmp Violation.compare :=
  inferInstanceAs (Std.TransCmp (compareLex (fun a b : Violation => a.path.compare b.path)
    fun a b => Ord.compare a.message b.message))

theorem compare_self (v : Violation) : v.compare v = .eq := Std.ReflCmp.compare_self

theorem compare_swap (v w : Violation) : v.compare w = (w.compare v).swap :=
  Std.OrientedCmp.eq_swap

theorem le_trans (u v w : Violation) (h : u.le v) (h' : v.le w) : u.le w :=
  have h : (u.compare v).isLE := h
  Std.TransCmp.isLE_trans h h'

theorem le_total (v w : Violation) : v.le w || w.le v := by
  rw [Bool.or_eq_true, le, le, compare_swap w v]
  cases v.compare w <;> simp

variable {v w : Violation} {vs : List Violation}

theorem mem_dropRepeats : v ∈ dropRepeats vs ↔ v ∈ vs := by
  induction vs using dropRepeats.induct with
  | case1 => rfl
  | case2 w => rfl
  | case3 w rest ih => rw [dropRepeats, if_pos rfl, ih]; simp
  | case4 u w rest hne ih =>
    rw [dropRepeats, if_neg hne, List.mem_cons, ih, List.mem_cons (l := w :: rest)]

theorem pairwise_dropRepeats (h : vs.Pairwise fun v w => v.le w) :
    (dropRepeats vs).Pairwise fun v w => v.compare w = .lt := by
  induction vs using dropRepeats.induct with
  | case1 => exact .nil
  | case2 => exact List.pairwise_singleton _ _
  | case3 w rest ih =>
    rw [dropRepeats, if_pos rfl]
    exact ih h.of_cons
  | case4 v w rest hne ih =>
    rw [dropRepeats, if_neg hne]
    obtain ⟨hv, hrest⟩ := List.pairwise_cons.1 h
    refine List.pairwise_cons.2 ⟨fun u hu => ?_, ih hrest⟩
    have hvw : v.compare w = .lt := by
      have hle : (v.compare w).isLE := hv w List.mem_cons_self
      cases he : v.compare w with
      | lt => rfl
      | eq => exact absurd (Std.LawfulEqCmp.eq_of_compare he) hne
      | gt => rw [he] at hle; cases hle
    have hwu : (w.compare u).isLE := by
      rcases List.mem_cons.1 (mem_dropRepeats.1 hu) with rfl | hu
      · rw [compare_self]
        rfl
      · exact (List.pairwise_cons.1 hrest).1 u hu
    exact Std.TransCmp.lt_of_lt_of_isLE hvw hwu

/-- A report is in strict order. -/
theorem pairwise_canonical (vs : List Violation) :
    (canonical vs).Pairwise fun v w => v.compare w = .lt :=
  pairwise_dropRepeats (List.pairwise_mergeSort le_trans le_total vs)

theorem mem_canonical : v ∈ canonical vs ↔ v ∈ vs := by
  rw [canonical, mem_dropRepeats, List.mem_mergeSort]

theorem canonical_eq_self (h : vs.Pairwise fun v w => v.compare w = .lt) : canonical vs = vs := by
  have sorted : vs.Pairwise fun v w => v.le w := h.imp fun hlt => by
    rw [le, hlt]
    rfl
  rw [canonical, List.mergeSort_of_pairwise sorted]
  clear sorted
  induction vs using dropRepeats.induct with
  | case1 => rfl
  | case2 => rfl
  | case3 w rest =>
    have hlt := (List.pairwise_cons.1 h).1 w List.mem_cons_self
    rw [compare_self] at hlt
    cases hlt
  | case4 v w rest hne ih => rw [dropRepeats, if_neg hne, ih h.of_cons]

end Violation

end Schemata
