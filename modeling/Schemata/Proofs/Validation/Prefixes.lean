import Schemata.Proofs.Validation.Order

/-!
# Violations seen from further up

Two places beneath one place are ordered like what leads to them from there. So to see violations
from further up changes nothing in their order and confuses none, and a report may be put in order
before or after. Places put together act on violations one after the other.
-/

namespace Schemata

theorem TreePath.compare_append (p q r : TreePath) :
    TreePath.compare (p ++ q) (p ++ r) = TreePath.compare q r := by
  induction p with
  | nil => rfl
  | cons a p ih =>
    have hself : a.compare a = .eq := Std.ReflCmp.compare_self
    rw [List.cons_append, List.cons_append, TreePath.compare, hself, Ordering.then, ih]

namespace Violation

variable {v w : Violation} {p : TreePath}

@[simp] theorem under_nil (v : Violation) : v.under [] = v := rfl

theorem under_under (v : Violation) (p q : TreePath) : (v.under q).under p = v.under (p ++ q) := by
  rw [under, under, under, List.append_assoc]

theorem under_injective (p : TreePath) : Function.Injective fun v : Violation => v.under p := by
  intro v w h
  obtain ⟨hp, hm⟩ := Violation.mk.inj h
  exact congrArg₂ Violation.mk (List.append_cancel_left hp) hm

theorem compare_under (v w : Violation) (p : TreePath) :
    (v.under p).compare (w.under p) = v.compare w := by
  rw [compare, compare, under, under, TreePath.compare_append]

theorem before_under : (v.under p).Before (w.under p) ↔ v.Before w := by
  rw [← compare_eq_lt, ← compare_eq_lt, compare_under]

theorem map_dropRepeats {f : Violation → Violation} (hf : Function.Injective f)
    (vs : List Violation) : (dropRepeats vs).map f = dropRepeats (vs.map f) := by
  induction vs using dropRepeats.induct with
  | case1 => rfl
  | case2 v => rfl
  | case3 v rest ih =>
    rw [List.map_cons, List.map_cons, dropRepeats, if_pos rfl, dropRepeats, if_pos rfl, ih,
      List.map_cons]
  | case4 v w rest hne ih =>
    rw [List.map_cons, List.map_cons, dropRepeats, if_neg hne, dropRepeats, if_neg (hf.ne hne),
      List.map_cons, ih, List.map_cons]

theorem map_canonical (p : TreePath) (vs : List Violation) :
    (canonical vs).map (·.under p) = canonical (vs.map (·.under p)) := by
  have hle : ∀ v ∈ vs, ∀ w ∈ vs, v.le w = (v.under p).le (w.under p) := fun v _ w _ => by
    rw [le, le, compare_under]
  rw [canonical, canonical, map_dropRepeats (under_injective p), List.map_mergeSort hle]

/-- To see violations from further up keeps and reflects their order and tells them apart, it does
the same to a report as to what the report is made of, and it composes like the places. -/
theorem under_lawful (p : TreePath) :
    (∀ v w : Violation, v.Before w ↔ (v.under p).Before (w.under p)) ∧
    (Function.Injective fun v : Violation => v.under p) ∧
    (∀ vs, (canonical vs).map (·.under p) = canonical (vs.map (·.under p))) ∧
    (∀ (q : TreePath) (v : Violation), (v.under q).under p = v.under (p ++ q)) ∧
    ∀ v : Violation, v.under [] = v :=
  ⟨fun _ _ => before_under.symm, under_injective p, map_canonical p,
    fun q v => under_under v p q, under_nil⟩

end Violation

end Schemata
