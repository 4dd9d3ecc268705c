import Schemata.Proofs.Validation.Steps

/-!
# Two walks side by side

Two walks that differ in part are related by what they have in common. If they resolve references
alike, they come to the same outcome and stay related, as long as the relation sees to it that they
have the same stack and the same checked targets.
-/

namespace Schemata.Walk

variable {g g' : Tree → List Violation} {d : Disk} {R : Walk → Walk → Prop} {w w' : Walk}
  {act act' next next' : Walk → Outcome} {out out' : Outcome}

/-- The same has come of two walks, and they are related. -/
def Matches (R : Walk → Walk → Prop) (out out' : Outcome) : Prop :=
  out'.1 = out.1 ∧ R out.2 out'.2

/-- Parts of two walks come to the same and leave the walks related. -/
def InStep (R : Walk → Walk → Prop) (act act' : Walk → Outcome) : Prop :=
  ∀ ⦃w w'⦄, R w w' → Matches R (act w) (act' w')

theorem InStep.andThen (h : InStep R act act') (h' : InStep R next next') :
    InStep R (andThen act next) (andThen act' next') := by
  intro w w' hw
  obtain ⟨ho, hx⟩ := h hw
  rw [Walk.andThen, Walk.andThen]
  rcases he : act w with ⟨o, w₁⟩
  rcases he' : act' w' with ⟨o', w₁'⟩
  rw [he, he'] at ho hx
  cases ho
  cases o with
  | error e => exact ⟨rfl, hx⟩
  | ok => exact h' hx

theorem InStep.inTurn {α : Type} {act act' : α → Walk → Outcome} (xs : List α)
    (h : ∀ x ∈ xs, InStep R (act x) (act' x)) :
    InStep R (Walk.inTurn act xs) (Walk.inTurn act' xs) := by
  induction xs with
  | nil => exact fun w w' hw => ⟨rfl, hw⟩
  | cons x xs ih =>
    rw [inTurn_cons, inTurn_cons]
    exact (h x List.mem_cons_self).andThen (ih fun y hy => h y (List.mem_cons_of_mem _ hy))

theorem InStep.through {down down' : String → TreePath → Walk → Outcome}
    (hreport : ∀ {w w'}, R w w' → ∀ base vs, R (w.report base vs) (w'.report base vs))
    (hdown : ∀ raw base, InStep R (down raw base) (down' raw base)) (t : Tree) (base : TreePath) :
    InStep R (Walk.through down t base) (Walk.through down' t base) := by
  induction t, base using through_induct with
  | scalar t base hm =>
    rw [through_scalar hm, through_scalar hm]
    exact fun w w' hw => ⟨rfl, hw⟩
  | reference es base raw hr =>
    rw [through_reference hr, through_reference hr]
    exact hdown raw base
  | inside es base hr ih =>
    rw [through_inside hr, through_inside hr]
    intro w w' hw
    exact InStep.inTurn _ (fun p _ => ih p.1 p.2) (hreport hw base (undeclared es))

/-- What related walks have in common for as long as they enter and leave the same targets. -/
structure Parallel (R : Walk → Walk → Prop) : Prop where
  stack : ∀ {w w'}, R w w' → w'.stack = w.stack
  checked : ∀ {w w'}, R w w' → w'.checked = w.checked
  report : ∀ {w w'}, R w w' → ∀ base vs, R (w.report base vs) (w'.report base vs)
  popped : ∀ {w w'}, R w w' →
    R { w with stack := w.stack.pop.2 } { w' with stack := w'.stack.pop.2 }
  done : ∀ {w w'}, R w w' → ∀ key,
    R { w with checked := w.checked ++ [key] } { w' with checked := w'.checked ++ [key] }

namespace Parallel

theorem through (h : Parallel R) {down down' : String → TreePath → Walk → Outcome}
    (hdown : ∀ raw base, InStep R (down raw base) (down' raw base)) (t : Tree) (base : TreePath) :
    InStep R (Walk.through down t base) (Walk.through down' t base) :=
  InStep.through h.report hdown t base

theorem leave (h : Parallel R) (key : ResolutionKey) (hm : Matches R out out') :
    Matches R (leave key out) (leave key out') := by
  obtain ⟨o, w⟩ := out
  obtain ⟨o', w'⟩ := out'
  obtain ⟨rfl, hw⟩ := hm
  cases o' with
  | error e => exact ⟨rfl, h.popped hw⟩
  | ok => exact ⟨rfl, h.done (h.popped hw) key⟩

/-- Walks that resolve a reference alike do the same with its target, if they do the same inside. -/
theorem descend (h : Parallel R) (hw : R w w') {room : Nat} {raw : String} {base : TreePath}
    {o : Except LoadError Target} {r r' : Resolver}
    (hres : w.resolver.resolve d raw w.stack = (o, r))
    (hres' : w'.resolver.resolve d raw w'.stack = (o, r'))
    (hresolved : R { w with resolver := r } { w' with resolver := r' })
    (hin : ∀ target stack room', o = .ok target → w.stack.push target.key = .ok stack →
      room = room' + 1 → Matches R
        (Walk.check g (Walk.descend g d room') target.value (base ++ [.key "$ref"])
          { w with resolver := r, stack := stack })
        (Walk.check g' (Walk.descend g' d room') target.value (base ++ [.key "$ref"])
          { w' with resolver := r', stack := stack })) :
    Matches R (Walk.descend g d room raw base w) (Walk.descend g' d room raw base w') := by
  cases o with
  | error e =>
    rw [descend_unresolved hres, descend_unresolved hres']
    exact ⟨rfl, hresolved⟩
  | ok target =>
    by_cases hc : w.checked.any (·.same target.key)
    · rw [descend_checked hres hc, descend_checked hres' (by rwa [h.checked hw])]
      exact ⟨rfl, hresolved⟩
    have hc' : ¬ w'.checked.any (·.same target.key) := by rwa [h.checked hw]
    have hpush : w'.stack.push target.key = w.stack.push target.key := by rw [h.stack hw]
    cases hp : w.stack.push target.key with
    | error e =>
      rw [descend_refused hres hc hp, descend_refused hres' hc' (hpush.trans hp)]
      exact ⟨rfl, hresolved⟩
    | ok stack =>
      cases room with
      | zero =>
        rw [descend_full hres hc hp, descend_full hres' hc' (hpush.trans hp)]
        exact ⟨by rw [h.stack hw], hresolved⟩
      | succ room =>
        rw [descend_entered hres hc hp, descend_entered hres' hc' (hpush.trans hp)]
        exact h.leave target.key (hin target stack room rfl hp rfl)

end Parallel

end Schemata.Walk
