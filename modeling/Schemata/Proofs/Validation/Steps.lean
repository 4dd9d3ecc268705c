import Mathlib.Data.List.Infix
import Schemata.Proofs.Reference.Stack
import Schemata.Proofs.Validation.Reports
import Schemata.Validation.Walk

/-!
# The walk step by step

A walk through a tree does what its references ask for, or reports what the node leaves undeclared
and goes on to the schemas inside it. A descent fails to resolve, finds its target checked, is
refused by the stack, or enters the target. What holds of doing nothing and of one thing after the
other holds of a walk if it holds of the descents in it.
-/

namespace Schemata

namespace Walk

variable {g : Tree → List Violation} {d : Disk} {down : String → TreePath → Walk → Outcome}
  {es : Entries} {base : TreePath}

theorem through_reference {raw : String} (h : (Tree.mapping es).reference? = some raw) :
    through down (.mapping es) base = down raw base := by
  funext w
  rw [through, h]

theorem through_inside (h : (Tree.mapping es).reference? = none) :
    through down (.mapping es) base = fun w => inTurn
      (fun p : {p // p ∈ Position.all es} => through down p.1.2 (base ++ p.1.1))
      (Position.all es).attach (w.report base (undeclared es)) := by
  funext w
  rw [through, h]

theorem through_scalar {t : Tree} (h : ∀ es, t ≠ .mapping es) :
    through down t base = fun w => (.ok (), w) := by
  funext w
  rw [through]
  exact h

/-- A walk ends at trees that are no mapping and at references, and goes inside other nodes. -/
theorem through_induct {motive : Tree → TreePath → Prop}
    (scalar : ∀ t base, (∀ es, t ≠ .mapping es) → motive t base)
    (reference : ∀ es base raw, (Tree.mapping es).reference? = some raw → motive (.mapping es) base)
    (inside : ∀ es base, (Tree.mapping es).reference? = none →
      (∀ p ∈ Position.all es, motive p.2 (base ++ p.1)) → motive (.mapping es) base)
    (t : Tree) (base : TreePath) : motive t base := by
  induction hn : t.size using Nat.strongRecOn generalizing t base with
  | ind n ih =>
    by_cases hm : ∃ es, t = .mapping es
    · obtain ⟨es, rfl⟩ := hm
      cases hr : (Tree.mapping es).reference? with
      | some raw => exact reference es base raw hr
      | none =>
        refine inside es base hr fun p hp => ?_
        exact ih _ (hn ▸ Position.size_lt hp) _ _ rfl
    · exact scalar t base fun es he => hm ⟨es, he⟩

/-- Leaves a target, which is done unless the walk through it was broken off. -/
def leave (key : ResolutionKey) : Outcome → Outcome
  | (.error e, w) => (.error e, { w with stack := w.stack.pop.2 })
  | (.ok (), w) => (.ok (), { w with stack := w.stack.pop.2, checked := w.checked ++ [key] })

/-- Does one thing, then another one unless the first fails. -/
def andThen (act act' : Walk → Outcome) (w : Walk) : Outcome :=
  match act w with
  | (.error e, w) => (.error e, w)
  | (.ok (), w) => act' w

theorem inTurn_cons {α : Type} {act : α → Walk → Outcome} (a : α) (as : List α) :
    inTurn act (a :: as) = andThen (act a) (inTurn act as) := by
  funext w
  rcases h : act a w with ⟨e | _, w'⟩ <;> simp only [inTurn, andThen, h]

/-- A property of parts of the walk that doing nothing has, and a composition of parts with it. -/
structure Compositional (P : (Walk → Outcome) → Prop) : Prop where
  pass : P fun w => (.ok (), w)
  report : ∀ {act} base vs, P act → P fun w => act (w.report base vs)
  andThen : ∀ {act act'}, P act → P act' → P (andThen act act')

namespace Compositional

variable {P : (Walk → Outcome) → Prop}

theorem inTurn (h : Compositional P) {α : Type} {act : α → Walk → Outcome} (xs : List α)
    (hx : ∀ x ∈ xs, P (act x)) : P (Walk.inTurn act xs) := by
  induction xs with
  | nil => exact h.pass
  | cons x xs ih =>
    rw [inTurn_cons]
    exact h.andThen (hx x List.mem_cons_self) (ih fun y hy => hx y (List.mem_cons_of_mem _ hy))

theorem through (h : Compositional P) (hdown : ∀ raw base, P (down raw base)) (t : Tree)
    (base : TreePath) : P (Walk.through down t base) := by
  induction t, base using through_induct with
  | scalar t base hm =>
    rw [through_scalar hm]
    exact h.pass
  | reference es base raw hr =>
    rw [through_reference hr]
    exact hdown raw base
  | inside es base hr ih =>
    rw [through_inside hr]
    exact h.report base _ (h.inTurn _ fun p _ => ih p.1 p.2)

theorem check (h : Compositional P) (hdown : ∀ raw base, P (down raw base)) (t : Tree)
    (base : TreePath) : P (Walk.check g down t base) :=
  h.report base _ (h.through hdown t base)

/-- A descent has the property if it gets it from checking its target with less room. -/
theorem descend (h : Compositional P) (step : ∀ room,
      (∀ room', room = room' + 1 → ∀ t base, P (Walk.check g (Walk.descend g d room') t base)) →
        ∀ raw base, P (Walk.descend g d room raw base)) (room : Nat) (raw : String)
    (base : TreePath) : P (Walk.descend g d room raw base) := by
  induction room generalizing raw base with
  | zero => exact step 0 (fun room' h => by omega) raw base
  | succ room ih =>
    refine step (room + 1) (fun room' hr => ?_) raw base
    cases hr
    exact h.check ih

end Compositional

variable {room : Nat} {raw : String} {w : Walk} {r' : Resolver} {target : Target}
  {e : LoadError} {stack : ResolutionStack}

theorem descend_unresolved (h : w.resolver.resolve d raw w.stack = (.error e, r')) :
    descend g d room raw base w = (.error e, { w with resolver := r' }) := by
  rw [descend, h]

theorem descend_checked (h : w.resolver.resolve d raw w.stack = (.ok target, r'))
    (hc : w.checked.any (·.same target.key)) :
    descend g d room raw base w = (.ok (), { w with resolver := r' }) := by
  rw [descend, h]
  exact if_pos hc

theorem descend_refused (h : w.resolver.resolve d raw w.stack = (.ok target, r'))
    (hc : ¬ w.checked.any (·.same target.key)) (hp : w.stack.push target.key = .error e) :
    descend g d room raw base w = (.error e, { w with resolver := r' }) := by
  rw [descend, h]
  simp only [hc, hp]
  rfl

theorem descend_full (h : w.resolver.resolve d raw w.stack = (.ok target, r'))
    (hc : ¬ w.checked.any (·.same target.key)) (hp : w.stack.push target.key = .ok stack) :
    descend g d 0 raw base w =
      (.error (.cyclic (w.stack.keys ++ [target.key])), { w with resolver := r' }) := by
  rw [descend, h]
  simp only [hc, hp]
  rfl

theorem descend_entered (h : w.resolver.resolve d raw w.stack = (.ok target, r'))
    (hc : ¬ w.checked.any (·.same target.key)) (hp : w.stack.push target.key = .ok stack) :
    descend g d (room + 1) raw base w =
      leave target.key (check g (descend g d room) target.value (base ++ [.key "$ref"])
        { w with resolver := r', stack := stack }) := by
  rw [descend, h]
  simp only [hc, hp]
  rfl

theorem descend_stays_or_enters {o : Except LoadError Target} (g : Tree → List Violation)
    (room : Nat) (base : TreePath) (h : w.resolver.resolve d raw w.stack = (o, r')) :
    (∃ o', descend g d room raw base w = (o', { w with resolver := r' })) ∨
      ∃ target stack room', o = .ok target ∧ w.stack.push target.key = .ok stack ∧
        room = room' + 1 ∧ descend g d room raw base w =
          leave target.key (check g (descend g d room') target.value (base ++ [.key "$ref"])
            { w with resolver := r', stack := stack }) := by
  cases o with
  | error e => exact .inl ⟨_, descend_unresolved h⟩
  | ok target =>
    by_cases hc : w.checked.any (·.same target.key)
    · exact .inl ⟨_, descend_checked h hc⟩
    cases hp : w.stack.push target.key with
    | error e => exact .inl ⟨_, descend_refused h hc hp⟩
    | ok stack =>
      cases room with
      | zero => exact .inl ⟨_, descend_full h hc hp⟩
      | succ room => exact .inr ⟨target, stack, room, rfl, hp, rfl, descend_entered h hc hp⟩

/-- What every change that a walk makes leads to, and one change after the other. -/
structure Progress (d : Disk) (R : Walk → Walk → Prop) : Prop where
  refl : ∀ w, R w w
  trans : ∀ {u v w}, R u v → R v w → R u w
  report : ∀ w base vs, R w (w.report base vs)
  resolved : ∀ w raw, R w { w with resolver := (w.resolver.resolve d raw w.stack).2 }
  moved : ∀ w stack, R w { w with stack := stack }
  done : ∀ w key, R w { w with checked := w.checked ++ [key] }

namespace Progress

variable {R : Walk → Walk → Prop}

theorem compositional (h : Progress d R) : Compositional fun act => ∀ w, R w (act w).2 where
  pass := h.refl
  report base vs hact w := h.trans (h.report w base vs) (hact (w.report base vs))
  andThen {act act'} hact hact' w := by
    have hw := hact w
    rw [andThen]
    rcases he : act w with ⟨e | _, w'⟩ <;> rw [he] at hw
    · exact hw
    · exact h.trans hw (hact' w')

theorem leave (h : Progress d R) (key : ResolutionKey) (out : Outcome) :
    R out.2 (leave key out).2 := by
  rcases out with ⟨e | _, w⟩
  · exact h.moved w _
  · exact h.trans (h.moved w w.stack.pop.2) (h.done { w with stack := w.stack.pop.2 } key)

theorem descend (h : Progress d R) (room : Nat) (raw : String) (base : TreePath) (w : Walk) :
    R w (descend g d room raw base w).2 := by
  refine h.compositional.descend (fun room hin raw base w => ?_) room raw base w
  have hw := h.resolved w raw
  rcases hres : w.resolver.resolve d raw w.stack with ⟨o, r'⟩
  rw [hres] at hw
  obtain ⟨o', he⟩ | ⟨target, stack, room', -, -, hroom, he⟩ :=
    descend_stays_or_enters g room base hres <;> rw [he]
  · exact hw
  · have hentered := h.trans hw (h.moved { w with resolver := r' } stack)
    exact h.trans (h.trans hentered (hin room' hroom target.value _ _)) (h.leave target.key _)

end Progress

def Collects (act : Walk → Outcome) : Prop := ∀ w, w.violations <+: (act w).2.violations

namespace Collects

theorem progress (d : Disk) : Progress d fun w w' => w.violations <+: w'.violations where
  refl w := List.prefix_refl w.violations
  trans h h' := h.trans h'
  report w _ _ := List.prefix_append w.violations _
  resolved w _ := List.prefix_refl w.violations
  moved w _ := List.prefix_refl w.violations
  done w _ := List.prefix_refl w.violations

theorem compositional (d : Disk) : Compositional Collects := (progress d).compositional

theorem descend (room : Nat) (raw : String) (base : TreePath) :
    Collects (descend g d room raw base) :=
  (progress d).descend room raw base

end Collects

theorem undeclared_prefix_through (h : (Tree.mapping es).reference? = none) (base : TreePath)
    (room : Nat) (w : Walk) : (w.report base (undeclared es)).violations <+:
      (through (Walk.descend g d room) (.mapping es) base w).2.violations := by
  rw [through_inside h]
  have hparts := Collects.compositional d
  exact hparts.inTurn _ (fun p _ => hparts.through (Collects.descend room) p.1.2 _) _

end Walk

namespace Schema

variable {g : Tree → List Violation} {d : Disk} {r : Resolver} {s : Schema} {vs : List Violation}

/-- A validation that succeeds reports what its walk has collected. -/
theorem validate_eq_ok : (s.validate g d r).1 = .ok vs ↔
    ∃ w, Walk.run g d r s = (.ok (), w) ∧ vs = Violation.canonical w.violations := by
  rw [validate]
  rcases Walk.run g d r s with ⟨e | _, w⟩ <;> simp [eq_comm]

theorem validate_eq_of_run (hrun : (Walk.run g d r s).1 = .ok ())
    (hvs : (Walk.run g d r s).2.violations = vs)
    (horder : vs.Pairwise fun v w => v.compare w = .lt) : (s.validate g d r).1 = .ok vs := by
  refine validate_eq_ok.2 ⟨_, Prod.ext hrun rfl, ?_⟩
  rw [hvs, Violation.canonical_eq_self horder]

end Schema

end Schemata
