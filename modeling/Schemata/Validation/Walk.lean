import Schemata.Reference.Resolver
import Schemata.Schema.Basic
import Schemata.Validation.Positions

/-!
# Validating a document with all that it refers to

A document is held against the grammar as a whole and then walked through every schema in it. A
reference is followed, and its target is checked and walked in turn; its violations are reported
beneath the place of the first reference that led there. References inside a target count from the
file of the target, which the stack says, and the stack also breaks cycles.

The grammar is a parameter: whatever finds the violations of a tree.
-/

namespace Schemata

structure Walk where
  resolver : Resolver
  stack : ResolutionStack
  /-- The targets that have been walked to their end. -/
  checked : List ResolutionKey
  violations : List Violation
deriving Repr

/-- Whether a walk came to its end, and how far it came. -/
abbrev Walk.Outcome := Except LoadError Unit × Walk

namespace Walk

def report (w : Walk) (base : TreePath) (vs : List Violation) : Walk :=
  { w with violations := w.violations ++ vs.map (·.under base) }

/-- Does the same with one thing after the other, up to the first failure. -/
def inTurn {α : Type} (act : α → Walk → Outcome) : List α → Walk → Outcome
  | [], w => (.ok (), w)
  | a :: as, w =>
    match act a w with
    | (.error e, w) => (.error e, w)
    | (.ok (), w) => inTurn act as w

/-- Walks through the schemas of a tree. `descend` does what a reference asks for. -/
def through (descend : String → TreePath → Walk → Outcome) (t : Tree) (base : TreePath)
    (w : Walk) : Outcome :=
  match t with
  | .mapping es =>
    match (Tree.mapping es).reference? with
    | some raw => descend raw base w
    | none =>
      inTurn (fun p => through descend p.1.2 (base ++ p.1.1)) (Position.all es).attach
        (w.report base (undeclared es))
  | _ => (.ok (), w)
termination_by t.size
decreasing_by exact Position.size_lt p.2

def check (grammar : Tree → List Violation) (descend : String → TreePath → Walk → Outcome)
    (t : Tree) (base : TreePath) (w : Walk) : Outcome :=
  through descend t base (w.report base (grammar t))

/-- Follows a reference and checks its target unless that has been done. `room` is the number of
nodes that the stack still admits. -/
def descend (grammar : Tree → List Violation) (d : Disk) :
    (room : Nat) → String → TreePath → Walk → Outcome
  | room, raw, base, w =>
    match w.resolver.resolve d raw w.stack with
    | (.error e, r) => (.error e, { w with resolver := r })
    | (.ok target, r) =>
      let w := { w with resolver := r }
      if w.checked.any (·.same target.key) then (.ok (), w)
      else
        match room, w.stack.push target.key with
        | _, .error e => (.error e, w)
        | 0, .ok _ => (.error (.cyclic (w.stack.keys ++ [target.key])), w)
        | room + 1, .ok stack =>
          match check grammar (descend grammar d room) target.value (base ++ [.key "$ref"])
              { w with stack := stack } with
          | (.error e, w) => (.error e, { w with stack := w.stack.pop.2 })
          | (.ok (), w) =>
            (.ok (), { w with stack := w.stack.pop.2, checked := w.checked ++ [target.key] })

def start (d : Disk) (r : Resolver) (s : Schema) : Walk :=
  ⟨r.insertDocument d s.path s.root, .new d s.path, [], []⟩

def run (grammar : Tree → List Violation) (d : Disk) (r : Resolver) (s : Schema) : Outcome :=
  let w := start d r s
  check grammar (descend grammar d w.stack.room) s.root [] w

end Walk

/-- The violations of a document in the order of reports. A reference that cannot be followed ends
the validation. The resolver comes with the outcome. -/
def Schema.validate (s : Schema) (grammar : Tree → List Violation) (d : Disk) (r : Resolver) :
    Except LoadError (List Violation) × Resolver :=
  match Walk.run grammar d r s with
  | (.ok (), w) => (.ok (Violation.canonical w.violations), w.resolver)
  | (.error e, w) => (.error e, w.resolver)

end Schemata
