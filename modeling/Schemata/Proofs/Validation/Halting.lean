import Mathlib.Logic.Function.Iterate
import Schemata.Proofs.Validation.Balance
import Schemata.Proofs.Validation.Events

/-!
# Validation comes to a halt

The calls of a validation one after the other, with those that wait for others on a pile. Nothing
bounds the number of steps from outside; they end since the stack of targets has room for so many
descents, and between two descents a call is at a proper part of the schema of the call before. What
they end with is the outcome of the validation.
-/

namespace Schemata

inductive Tree.Part : Tree → Tree → Prop
  | item {t ts} (h : t ∈ ts) : Part t (.list ts)
  | entry {k t es} (h : (k, t) ∈ es) : Part t (.mapping es)
  | trans {t u v} (h : Part t u) (h' : Part u v) : Part t v

theorem Tree.Part.size_lt {t u : Tree} (h : t.Part u) : t.size < u.size := by
  induction h with
  | item h =>
    have hle := Position.size_le_of_mem_items h
    rw [size]
    omega
  | entry h =>
    have hle := Position.size_le_of_mem_entries h
    rw [size]
    omega
  | trans _ _ ih ih' => exact ih.trans ih'

theorem Tree.Part.of_get? {t : Tree} {es : Entries} {key : String}
    (h : Entries.get? es key = some t) : t.Part (.mapping es) :=
  .entry (Entries.mem_of_get? h)

theorem Inside.part {t : Tree} {es : Entries} (h : Inside es t) : t.Part (.mapping es) := by
  cases h with
  | single _ ht => exact .of_get? ht
  | named _ hc ht => exact .trans (.entry ht) (.of_get? hc)
  | listed _ hi ht => exact .trans (.item ht) (.of_get? hi)
  | item ht _ => exact .of_get? ht
  | items hi ht => exact .trans (.item ht) (.of_get? hi)

namespace Walk

/-- A call that waits for one that it has made. -/
inductive Frame where
  /-- The walk through a schema at a place, with the schemas inside that are still to come. -/
  | inside (t : Tree) (base : TreePath) (todo : List Position)
  /-- The descent into a target. -/
  | descent (target : Target)

/-- Where a validation stands: at a call, back from one, or at its end. -/
inductive Stage where
  | call (t : Tree) (base : TreePath) (frames : List Frame) (w : Walk)
  | back (frames : List Frame) (w : Walk)
  | halted (result : Except LoadError (List Violation)) (r : Resolver)

/-- What becomes of a reference: a failure ends all calls, a target that is checked is left alone,
and any other one is held against the grammar and called. -/
def refer (g : Tree → List Violation) (d : Disk) (raw : String) (base : TreePath)
    (frames : List Frame) (w : Walk) : Stage :=
  match w.resolver.resolve d raw w.stack with
  | (.error e, r) => .halted (.error e) r
  | (.ok target, r) =>
    if w.checked.any (·.same target.key) then .back frames { w with resolver := r }
    else
      match w.stack.push target.key with
      | .error e => .halted (.error e) r
      | .ok stack =>
        let base : TreePath := base ++ [.key "$ref"]
        .call target.value base (.descent target :: frames)
          (report { w with resolver := r, stack := stack } base (g target.value))

def step (g : Tree → List Violation) (d : Disk) : Stage → Stage
  | .call (.mapping es) base frames w =>
    match (Tree.mapping es).reference? with
    | some raw => refer g d raw base frames w
    | none =>
      .back (.inside (.mapping es) base (Position.all es) :: frames) (w.report base (undeclared es))
  | .call _ _ frames w => .back frames w
  | .back [] w => .halted (.ok (Violation.canonical w.violations)) w.resolver
  | .back (.inside _ _ [] :: frames) w => .back frames w
  | .back (.inside t base (p :: todo) :: frames) w =>
    .call p.2 (base ++ p.1) (.inside t base todo :: frames) w
  | .back (.descent target :: frames) w =>
    .back frames { w with stack := w.stack.pop.2, checked := w.checked ++ [target.key] }
  | .halted result r => .halted result r

/-- Where the validation of a document begins. -/
def opening (g : Tree → List Violation) (d : Disk) (r : Resolver) (s : Schema) : Stage :=
  .call s.root [] [] ((start d r s).report [] (g s.root))

def stage (g : Tree → List Violation) (d : Disk) (r : Resolver) (s : Schema) (n : Nat) : Stage :=
  (step g d)^[n] (opening g d r s)

section Run

variable {g : Tree → List Violation} {d : Disk} {down : String → TreePath → Walk → Outcome}
  {a b c : Stage} {act : Walk → Outcome} {es : Entries} {t : Tree} {base : TreePath} {room : Nat}
  {raw : String} {frames : List Frame} {w : Walk} {r' : Resolver} {target : Target}
  {e : LoadError} {stack : ResolutionStack}

theorem refer_unresolved (h : w.resolver.resolve d raw w.stack = (.error e, r')) :
    refer g d raw base frames w = .halted (.error e) r' := by
  rw [refer, h]

theorem refer_checked (h : w.resolver.resolve d raw w.stack = (.ok target, r'))
    (hc : w.checked.any (·.same target.key)) :
    refer g d raw base frames w = .back frames { w with resolver := r' } := by
  rw [refer, h]
  exact if_pos hc

theorem refer_refused (h : w.resolver.resolve d raw w.stack = (.ok target, r'))
    (hc : ¬ w.checked.any (·.same target.key)) (hp : w.stack.push target.key = .error e) :
    refer g d raw base frames w = .halted (.error e) r' := by
  rw [refer, h]
  simp only [hc, hp]
  rfl

theorem refer_entered (h : w.resolver.resolve d raw w.stack = (.ok target, r'))
    (hc : ¬ w.checked.any (·.same target.key)) (hp : w.stack.push target.key = .ok stack) :
    refer g d raw base frames w =
      .call target.value (base ++ [.key "$ref"]) (.descent target :: frames)
        (report { w with resolver := r', stack := stack } (base ++ [.key "$ref"])
          (g target.value)) := by
  rw [refer, h]
  simp only [hc, hp]
  rfl

theorem step_reference (h : (Tree.mapping es).reference? = some raw) :
    step g d (.call (.mapping es) base frames w) = refer g d raw base frames w := by
  rw [step, h]

theorem step_inside (h : (Tree.mapping es).reference? = none) :
    step g d (.call (.mapping es) base frames w) =
      .back (.inside (.mapping es) base (Position.all es) :: frames)
        (w.report base (undeclared es)) := by
  rw [step, h]

theorem step_scalar (h : ∀ es, t ≠ .mapping es) :
    step g d (.call t base frames w) = .back frames w := by
  rw [step]
  exact h

def Comes (g : Tree → List Violation) (d : Disk) (a b : Stage) : Prop := ∃ n, (step g d)^[n] a = b

theorem Comes.refl (a : Stage) : Comes g d a a := ⟨0, rfl⟩

theorem Comes.trans (h : Comes g d a b) (h' : Comes g d b c) : Comes g d a c := by
  obtain ⟨m, rfl⟩ := h
  obtain ⟨n, rfl⟩ := h'
  exact ⟨n + m, Function.iterate_add_apply (step g d) n m a⟩

theorem Comes.head (h : Comes g d (step g d a) b) : Comes g d a b := by
  obtain ⟨n, rfl⟩ := h
  exact ⟨n + 1, rfl⟩

/-- Where the calls stand once the last one has come to an outcome. -/
def ending (frames : List Frame) : Outcome → Stage
  | (.ok (), w) => .back frames w
  | (.error e, w) => .halted (.error e) w.resolver

structure Roomy (room : Nat) (w : Walk) : Prop where
  ne_nil : w.stack.keys ≠ []
  limit : w.stack.maxDepth ≤ w.stack.keys.length + room

theorem Roomy.of_stack {w' : Walk} (h : Roomy room w) (hs : w'.stack = w.stack) :
    Roomy room w' := ⟨hs ▸ h.ne_nil, hs ▸ h.limit⟩

theorem Roomy.push {key : ResolutionKey} (h : Roomy room w) (r' : Resolver)
    (hp : w.stack.push key = .ok stack) :
    ∃ room', room = room' + 1 ∧ Roomy room' { w with resolver := r', stack := stack } := by
  obtain ⟨-, hlt, rfl⟩ := ResolutionStack.push_eq_ok hp
  have hlimit := h.limit
  refine ⟨room - 1, by omega, by simp, ?_⟩
  simp only [List.length_append, List.length_singleton]
  omega

/-- The call at a tree comes to what a part of the walk makes of it. -/
def Executes (g : Tree → List Violation) (d : Disk) (room : Nat) (t : Tree) (base : TreePath)
    (act : Walk → Outcome) : Prop :=
  ∀ frames w, Roomy room w → Comes g d (.call t base frames w) (ending frames (act w))

theorem comes_inTurn {todo : List Position} (hdown : ∀ raw base, Restores (down raw base))
    (h : ∀ p ∈ todo, Executes g d room p.2 (base ++ p.1) (through down p.2 (base ++ p.1)))
    (hw : Roomy room w) : Comes g d (.back (.inside t base todo :: frames) w)
      (ending frames (inTurn (fun p => through down p.2 (base ++ p.1)) todo w)) := by
  induction todo generalizing w with
  | nil => exact .head (.refl _)
  | cons p todo ih =>
    have hstack := Restores.compositional.through hdown p.2 (base ++ p.1) w hw.ne_nil
    refine .head ((h p List.mem_cons_self _ w hw).trans ?_)
    rw [inTurn_cons, andThen]
    rcases he : through down p.2 (base ++ p.1) w with ⟨e | _, w'⟩ <;> rw [he] at hstack
    · exact .refl _
    · exact ih (fun q hq => h q (List.mem_cons_of_mem p hq)) (hw.of_stack hstack)

theorem executes_through (hdown : ∀ raw base, Restores (down raw base))
    (h : ∀ es base raw, (Tree.mapping es).reference? = some raw →
      Executes g d room (.mapping es) base (down raw base)) (t : Tree) (base : TreePath) :
    Executes g d room t base (through down t base) := by
  induction t, base using through_induct with
  | scalar t base hm =>
    intro frames w _
    refine .head ?_
    rw [through_scalar hm, step_scalar hm]
    exact .refl _
  | reference es base raw hr =>
    rw [through_reference hr]
    exact h es base raw hr
  | inside es base hr ih =>
    intro frames w hw
    refine .head ?_
    rw [through_positions hr, step_inside hr]
    exact comes_inTurn hdown ih (hw.of_stack rfl)

/-- A descent is left when the call that it has made is back. -/
theorem comes_leave (target : Target) (o : Outcome) : Comes g d
    (ending (.descent target :: frames) o) (ending frames (leave target.key o)) := by
  rcases o with ⟨e | _, w⟩
  · exact .refl _
  · exact .head (.refl _)

/-- A call at a reference comes to what the descent makes of it. The stack refuses a target before
the room for descents is used up. -/
theorem executes_descend (hr : (Tree.mapping es).reference? = some raw)
    (hin : ∀ room', room = room' + 1 → ∀ t base,
      Executes g d room' t base (through (descend g d room') t base)) :
    Executes g d room (.mapping es) base (descend g d room raw base) := by
  intro frames w hw
  refine .head ?_
  rw [step_reference hr]
  rcases hres : w.resolver.resolve d raw w.stack with ⟨e | target, r'⟩
  · rw [descend_unresolved hres, refer_unresolved hres]
    exact .refl _
  by_cases hc : w.checked.any (·.same target.key)
  · rw [descend_checked hres hc, refer_checked hres hc]
    exact .refl _
  cases hp : w.stack.push target.key with
  | error e =>
    rw [descend_refused hres hc hp, refer_refused hres hc hp]
    exact .refl _
  | ok stack =>
    obtain ⟨room', rfl, hw'⟩ := hw.push r' hp
    rw [descend_entered hres hc hp, refer_entered hres hc hp]
    refine (hin room' rfl target.value _ _ _ ?_).trans (comes_leave target _)
    exact hw'.of_stack rfl

theorem executes (g : Tree → List Violation) (d : Disk) (room : Nat) (t : Tree) (base : TreePath) :
    Executes g d room t base (through (descend g d room) t base) := by
  induction room generalizing t base with
  | zero =>
    refine executes_through (Restores.descend 0) (fun es base raw hr => ?_) t base
    exact executes_descend hr fun room' h => by omega
  | succ room ih =>
    refine executes_through (Restores.descend _) (fun es base raw hr => ?_) t base
    refine executes_descend hr fun room' h t base => ?_
    cases h
    exact ih t base

theorem Roomy.start (d : Disk) (r : Resolver) (s : Schema) :
    Roomy (start d r s).stack.room (start d r s) where
  ne_nil := List.cons_ne_nil _ _
  limit := by
    rw [ResolutionStack.room]
    omega

/-- The calls come to an end, with the outcome of the validation. -/
theorem exists_halted (g : Tree → List Violation) (d : Disk) (r : Resolver) (s : Schema) :
    ∃ n, stage g d r s n = .halted (s.validate g d r).1 (s.validate g d r).2 := by
  have hrun : Comes g d (opening g d r s) (ending [] (run g d r s)) :=
    executes g d _ s.root [] [] _ ((Roomy.start d r s).of_stack rfl)
  refine hrun.trans ?_
  rw [Schema.validate]
  rcases run g d r s with ⟨e | _, w⟩
  · exact .refl _
  · exact .head (.refl _)

end Run

def Frame.isDescent : Frame → Bool
  | inside .. => false
  | descent _ => true

namespace Stage

def frames : Stage → List Frame
  | call _ _ frames _ => frames
  | back frames _ => frames
  | halted .. => []

def descents (a : Stage) : Nat := a.frames.countP Frame.isDescent

end Stage

/-- The tree can be the one of the next call on the pile: the root where no call waits, a proper
part of the schema whose walk waits, and the value of the target of a descent. -/
inductive Opens (root : Tree) : List Frame → Tree → Prop
  | root : Opens root [] root
  | inside {t u base todo frames} (h : t.Part u) : Opens root (.inside u base todo :: frames) t
  | descent {target frames} : Opens root (.descent target :: frames) target.value

/-- Every call that waits is one that those beneath it can have made. All that is still to come in a
schema is a proper part of it, and only from a reference is there a descent. -/
inductive Piled (root : Tree) : List Frame → Prop
  | nil : Piled root []
  | inside {t base todo frames} (h : Opens root frames t) (htodo : ∀ p ∈ todo, p.2.Part t)
      (hf : Piled root frames) : Piled root (.inside t base todo :: frames)
  | descent {t target frames} (h : Opens root frames t) (href : t.reference?.isSome)
      (hf : Piled root frames) : Piled root (.descent target :: frames)

/-- From call to call there is either a descent or a step to a proper part. -/
inductive Stage.WellNested (root : Tree) : Stage → Prop
  | call {t base frames w} (h : Opens root frames t) (hf : Piled root frames) :
      WellNested root (.call t base frames w)
  | back {frames w} (hf : Piled root frames) : WellNested root (.back frames w)
  | halted {result r} : WellNested root (.halted result r)

/-- The stack has one key for the document and one for every descent, and no more than it may. -/
structure Counts (frames : List Frame) (stack : ResolutionStack) : Prop where
  keys : stack.keys.length = frames.countP Frame.isDescent + 1
  limit : stack.keys.length ≤ stack.maxDepth
  depth : stack.maxDepth = ResolutionStack.defaultDepth

inductive Stage.Counted : Stage → Prop
  | call {t base frames w} (h : Counts frames w.stack) : Counted (.call t base frames w)
  | back {frames w} (h : Counts frames w.stack) : Counted (.back frames w)
  | halted {result r} : Counted (.halted result r)

section Pile

variable {g : Tree → List Violation} {d : Disk} {root t : Tree} {base : TreePath} {raw : String}
  {frames : List Frame} {w : Walk} {a : Stage} {target : Target} {stack stack' : ResolutionStack}
  {todo : List Position}

/-- All that can become of a reference. -/
theorem refer_cases {motive : Stage → Prop} (hhalted : ∀ e r, motive (.halted (.error e) r))
    (hchecked : ∀ r, motive (.back frames { w with resolver := r }))
    (hentered : ∀ target stack r, w.stack.push target.key = .ok stack →
      motive (.call target.value (base ++ [.key "$ref"]) (.descent target :: frames)
        (report { w with resolver := r, stack := stack } (base ++ [.key "$ref"])
          (g target.value)))) :
    motive (refer g d raw base frames w) := by
  rcases hres : w.resolver.resolve d raw w.stack with ⟨e | target, r⟩
  · rw [refer_unresolved hres]
    exact hhalted e r
  by_cases hc : w.checked.any (·.same target.key)
  · rw [refer_checked hres hc]
    exact hchecked r
  cases hp : w.stack.push target.key with
  | error e =>
    rw [refer_refused hres hc hp]
    exact hhalted e r
  | ok stack =>
    rw [refer_entered hres hc hp]
    exact hentered target stack r hp

theorem step_call {motive : Stage → Prop} (hback : motive (.back frames w))
    (hinside : ∀ es vs, t = .mapping es → motive (.back
      (.inside (.mapping es) base (Position.all es) :: frames) (w.report base vs)))
    (hrefer : ∀ raw, t.reference? = some raw → motive (refer g d raw base frames w)) :
    motive (step g d (.call t base frames w)) := by
  by_cases hm : ∀ es, t ≠ .mapping es
  · rw [step_scalar hm]
    exact hback
  obtain ⟨es, rfl⟩ : ∃ es, t = .mapping es := by
    simpa only [not_forall, not_not] using hm
  cases hr : (Tree.mapping es).reference? with
  | none =>
    rw [step_inside hr]
    exact hinside es _ rfl
  | some raw =>
    rw [step_reference hr]
    exact hrefer raw hr

theorem Stage.WellNested.step (h : a.WellNested root) : (step g d a).WellNested root := by
  cases h with
  | halted => exact .halted
  | back hf =>
    cases hf with
    | nil => exact .halted
    | @inside t base todo frames ho htodo hf =>
      cases todo with
      | nil => exact .back hf
      | cons p todo =>
        have hp := htodo p List.mem_cons_self
        exact .call (.inside hp) (.inside ho (fun q hq => htodo q (List.mem_cons_of_mem p hq)) hf)
    | descent _ _ hf => exact .back hf
  | call ho hf =>
    refine step_call (.back hf) (fun es vs ht => ?_) (fun raw hr => ?_)
    · subst ht
      exact .back (.inside ho (fun p hp => (Position.exists_mem_all.1 ⟨p, hp, rfl⟩).part) hf)
    · refine refer_cases (fun _ _ => .halted) (fun _ => .back hf) fun target stack r _ => ?_
      exact .call .descent (.descent ho (Option.isSome_of_eq_some hr) hf)

theorem countP_descent (target : Target) (frames : List Frame) :
    (Frame.descent target :: frames).countP Frame.isDescent =
      frames.countP Frame.isDescent + 1 :=
  List.countP_cons_of_pos rfl

theorem Counts.inside (h : Counts frames stack) : Counts (.inside t base todo :: frames) stack :=
  ⟨h.keys, h.limit, h.depth⟩

theorem Counts.of_inside (h : Counts (.inside t base todo :: frames) stack) : Counts frames stack :=
  ⟨h.keys, h.limit, h.depth⟩

theorem Counts.push (h : Counts frames stack) (hp : stack.push target.key = .ok stack') :
    Counts (.descent target :: frames) stack' := by
  obtain ⟨-, hlt, rfl⟩ := ResolutionStack.push_eq_ok hp
  refine ⟨?_, ?_, h.depth⟩
  · rw [List.length_append, List.length_singleton, h.keys, countP_descent]
  · rw [List.length_append, List.length_singleton]
    exact hlt

theorem Counts.pop (h : Counts (.descent target :: frames) stack) :
    Counts frames stack.pop.2 := by
  have hkeys := h.keys
  rw [countP_descent] at hkeys
  rw [ResolutionStack.pop_of_lt (by omega)]
  refine ⟨?_, ?_, h.depth⟩
  · rw [List.length_dropLast]
    omega
  · rw [List.length_dropLast]
    exact (Nat.sub_le ..).trans h.limit

theorem Stage.Counted.step (h : a.Counted) : (step g d a).Counted := by
  cases h with
  | halted => exact .halted
  | @back frames w h =>
    match frames with
    | [] => exact .halted
    | .inside _ _ [] :: _ => exact .back h.of_inside
    | .inside _ _ (_ :: _) :: _ => exact .call h.of_inside.inside
    | .descent _ :: _ => exact .back h.pop
  | call h =>
    refine step_call (.back h) (fun es vs _ => .back h.inside) fun raw _ => ?_
    exact refer_cases (fun _ _ => .halted) (fun _ => .back h) fun _ _ _ hp => .call (h.push hp)

theorem Stage.Counted.descents_lt (h : a.Counted) : a.descents < ResolutionStack.defaultDepth := by
  cases h with
  | halted => exact Nat.zero_lt_succ _
  | call h | back h =>
    have := h.keys
    have := h.limit
    have := h.depth
    rw [descents, frames]
    omega

variable (g d) (r : Resolver) (s : Schema) (n : Nat)

/-- What one step preserves holds at every stage. -/
theorem stage_induction {motive : Stage → Prop} (hopening : motive (opening g d r s))
    (hstep : ∀ a, motive a → motive (step g d a)) : motive (stage g d r s n) := by
  induction n with
  | zero => exact hopening
  | succ n ih =>
    rw [stage, Function.iterate_succ_apply']
    exact hstep _ ih

theorem wellNested_stage : (stage g d r s n).WellNested s.root :=
  stage_induction g d r s n (.call .root .nil) fun _ h => h.step

theorem counted_stage : (stage g d r s n).Counted := by
  refine stage_induction g d r s n (.call ⟨rfl, ?_, rfl⟩) fun _ h => h.step
  exact Nat.succ_le_succ (Nat.zero_le _)

end Pile

end Walk

/-- Whatever the document, the files and the references between them, the calls of a validation come
to an end, and what they end with is its outcome. There is never a pile of more descents than the
stack has room for beside the document, and between two descents every call is at a proper part of
the schema of the call that made it. -/
theorem Schema.validate_halts (g : Tree → List Violation) (d : Disk) (r : Resolver) (s : Schema) :
    (∃ n, Walk.stage g d r s n = .halted (s.validate g d r).1 (s.validate g d r).2) ∧
    ∀ n, (Walk.stage g d r s n).descents ≤ ResolutionStack.defaultDepth - 1 ∧
      (Walk.stage g d r s n).WellNested s.root := by
  refine ⟨Walk.exists_halted g d r s, fun n => ⟨?_, Walk.wellNested_stage g d r s n⟩⟩
  exact Nat.le_sub_one_of_lt (Walk.counted_stage g d r s n).descents_lt

end Schemata
