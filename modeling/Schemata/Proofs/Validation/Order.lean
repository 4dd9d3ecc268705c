import Mathlib.Data.List.Sort
import Mathlib.Order.Defs.Unbundled
import Schemata.Grammar.Check
import Schemata.Proofs.Text.Bytes
import Schemata.Proofs.Validation.Pairs

/-!
# One order of reports

Keys are compared by their bytes, indices by number, and a key comes before an index. Places are
compared step by step, so that a place comes before what lies beneath it, and violations by their
places, then by their messages. That is a strict total order, and a report is strictly increasing in
it. Two grammars that find the same in every tree, in whatever order and however often, take the
walk the same way, and its violations are the same but for their order and number. Therefore they
give the same report.
-/

namespace Schemata

inductive Step.Before : Step → Step → Prop
  | key {k l} (h : bytesOf k < bytesOf l) : Before (.key k) (.key l)
  | index {i j} (h : i < j) : Before (.index i) (.index j)
  | mixed {k i} : Before (.key k) (.index i)

/-- A place comes before what lies beneath it, and else the first step that differs decides. -/
def TreePath.Before : TreePath → TreePath → Prop := List.Lex Step.Before

def Violation.Before (v w : Violation) : Prop :=
  v.path.Before w.path ∨ v.path = w.path ∧ bytesOf v.message < bytesOf w.message

theorem Step.compare_eq_lt {a b : Step} : a.compare b = .lt ↔ a.Before b := by
  cases a with
  | key k =>
    cases b with
    | key l =>
      have hlt : (Step.key k).compare (.key l) = .lt ↔ k < l := compareOfLessAndEq_eq_lt
      rw [hlt, ← bytesOf_lt_iff]
      exact ⟨.key, fun | .key h => h⟩
    | index j => exact ⟨fun _ => .mixed, fun _ => rfl⟩
  | index i =>
    cases b with
    | key l => exact ⟨nofun, nofun⟩
    | index j =>
      have hlt : (Step.index i).compare (.index j) = .lt ↔ i < j := Nat.compare_eq_lt
      rw [hlt]
      exact ⟨.index, fun | .index h => h⟩

theorem TreePath.compare_eq_lt {p q : TreePath} : p.compare q = .lt ↔ p.Before q := by
  induction p generalizing q with
  | nil =>
    cases q with
    | nil => exact ⟨nofun, nofun⟩
    | cons b q => exact ⟨fun _ => .nil, fun _ => rfl⟩
  | cons a p ih =>
    cases q with
    | nil => exact ⟨nofun, nofun⟩
    | cons b q =>
      rw [TreePath.compare, Ordering.then_eq_lt, Step.compare_eq_lt, ih,
        Std.LawfulEqCmp.compare_eq_iff_eq]
      exact List.cons_lex_cons_iff.symm

namespace Violation

variable {v w : Violation} {vs vs' : List Violation}

theorem compare_eq_lt : v.compare w = .lt ↔ v.Before w := by
  have hm : Ord.compare v.message w.message = .lt ↔ v.message < w.message :=
    compareOfLessAndEq_eq_lt
  have hp : v.path.compare w.path = .eq ↔ v.path = w.path := Std.LawfulEqCmp.compare_eq_iff_eq
  rw [Before, bytesOf_lt_iff, ← TreePath.compare_eq_lt, ← hp, ← hm]
  exact Ordering.then_eq_lt

instance : IsStrictTotalOrder Violation Before where
  irrefl v h := by
    rw [← compare_eq_lt, compare_self] at h
    cases h
  trans u v w h h' := by
    rw [← compare_eq_lt] at h h' ⊢
    exact Std.TransCmp.lt_trans h h'
  trichotomous v w h h' := by
    rw [← compare_eq_lt] at h h'
    rw [compare_swap, Ordering.swap_eq_lt] at h'
    cases he : v.compare w with
    | lt => exact absurd he h
    | eq => exact Std.LawfulEqCmp.eq_of_compare he
    | gt => exact absurd he h'

theorem increasing_canonical (vs : List Violation) : (canonical vs).Pairwise Before :=
  (pairwise_canonical vs).imp compare_eq_lt.1

/-- A report depends on nothing but which violations there are. -/
theorem canonical_congr (h : ∀ v, v ∈ vs' ↔ v ∈ vs) : canonical vs' = canonical vs := by
  refine (increasing_canonical vs').eq_of_mem_iff (increasing_canonical vs) fun v => ?_
  rw [mem_canonical, mem_canonical, h]

end Violation

variable {g g' : Tree → List Violation} {d : Disk}

namespace Walk

/-- Two walks that differ only in how often and in which order they have violations. -/
structure Level (w w' : Walk) : Prop where
  resolver : w'.resolver = w.resolver
  stack : w'.stack = w.stack
  checked : w'.checked = w.checked
  violations : ∀ v, v ∈ w'.violations ↔ v ∈ w.violations

namespace Level

variable {w w' : Walk} {down down' : String → TreePath → Walk → Outcome}

theorem report (hw : Level w w') {vs vs' : List Violation} (hvs : ∀ v, v ∈ vs' ↔ v ∈ vs)
    (base : TreePath) : Level (w.report base vs) (w'.report base vs') :=
  { hw with
    violations := fun v => by
      simp only [Walk.report, List.mem_append, List.mem_map, hw.violations, hvs] }

theorem parallel : Parallel Level where
  stack hw := hw.stack
  checked hw := hw.checked
  report hw base _ := hw.report (fun _ => Iff.rfl) base
  popped hw := { hw with stack := congrArg (·.pop.2) hw.stack }
  done hw key := { hw with checked := congrArg (· ++ [key]) hw.checked }

theorem check (hg : ∀ t v, v ∈ g' t ↔ v ∈ g t)
    (h : ∀ raw base, InStep Level (down raw base) (down' raw base)) (t : Tree) (base : TreePath) :
    InStep Level (Walk.check g down t base) (Walk.check g' down' t base) :=
  fun _ _ hw => parallel.through h t base (hw.report (hg t) base)

theorem descend (hg : ∀ t v, v ∈ g' t ↔ v ∈ g t) (room : Nat) (raw : String) (base : TreePath) :
    InStep Level (Walk.descend g d room raw base) (Walk.descend g' d room raw base) := by
  induction room using Nat.strongRecOn generalizing raw base with
  | ind room ih =>
    intro w w' hw
    have hsame : w'.resolver.resolve d raw w'.stack = w.resolver.resolve d raw w.stack := by
      rw [hw.resolver, hw.stack]
    refine parallel.descend hw (Prod.ext rfl rfl) hsame { hw with resolver := rfl }
      fun target stack room' _ _ hr => ?_
    have inside := check hg (ih room' (by omega)) target.value (base ++ [.key "$ref"])
    exact inside { hw with resolver := rfl, stack := rfl }

end Level

theorem level_run (hg : ∀ t v, v ∈ g' t ↔ v ∈ g t) (r : Resolver) (s : Schema) :
    Matches Level (run g d r s) (run g' d r s) :=
  Level.check hg (Level.descend hg _) s.root [] ⟨rfl, rfl, rfl, fun _ => Iff.rfl⟩

end Walk

/-- A report is strictly increasing in an order that is total, and is the same for all grammars that
find the same in every tree. -/
theorem Schema.validate_canonical (g : Tree → List Violation) (d : Disk) (r : Resolver)
    (s : Schema) : IsStrictTotalOrder Violation Violation.Before ∧
      (∀ vs, (s.validate g d r).1 = .ok vs → vs.Pairwise Violation.Before) ∧
      ∀ g' : Tree → List Violation, (∀ t v, v ∈ g' t ↔ v ∈ g t) →
        s.validate g' d r = s.validate g d r := by
  refine ⟨inferInstance, fun vs hvs => ?_, fun g' hg => ?_⟩
  · obtain ⟨w, -, rfl⟩ := validate_eq_ok.1 hvs
    exact Violation.increasing_canonical w.violations
  · obtain ⟨ho, hw⟩ := Walk.level_run (d := d) hg r s
    rw [validate, validate]
    rcases he : Walk.run g d r s with ⟨o, w⟩
    rcases he' : Walk.run g' d r s with ⟨o', w'⟩
    rw [he, he'] at ho hw
    have hr : w'.resolver = w.resolver := hw.resolver
    cases ho
    cases o with
    | error e => exact Prod.ext rfl hr
    | ok =>
      have hvs := Violation.canonical_congr hw.violations
      exact Prod.ext (congrArg Except.ok hvs) hr

def Muster.schema : Schema :=
  .ofTree ⟨"/a.json"⟩ ⟨"/"⟩ (.mapping [("$comment", .null), ("description", .null),
    ("required", .list [.string "x"])])

/-- What the grammar finds, backwards and then once more. -/
def Muster.twice (t : Tree) : List Violation := (draft07 t).reverse ++ draft07 t

def Muster.violations : List Violation :=
  [⟨[.key "$comment"], "null is not of type \"string\""⟩,
    ⟨[.key "description"], "null is not of type \"string\""⟩,
    ⟨[.key "required", .index 0], "\"x\" is required but not declared in properties"⟩]

theorem Muster.mem_twice (t : Tree) (v : Violation) : v ∈ twice t ↔ v ∈ draft07 t := by
  rw [twice, List.mem_append, List.mem_reverse, or_self]

theorem Muster.same_report : (∀ t v, v ∈ twice t ↔ v ∈ draft07 t) ∧
    (schema.validate draft07 ⟨[], []⟩ .empty).1 = .ok violations ∧
    violations.Pairwise Violation.Before ∧
    (schema.validate twice ⟨[], []⟩ .empty).1 = .ok violations := by
  have h : (schema.validate draft07 ⟨[], []⟩ .empty).1 = .ok violations :=
    Schema.validate_eq_of_run (by decide +kernel) (by decide +kernel) (by decide +kernel)
  obtain ⟨-, horder, hsame⟩ := Schema.validate_canonical draft07 ⟨[], []⟩ .empty schema
  exact ⟨mem_twice, h, horder _ h, hsame twice mem_twice ▸ h⟩

end Schemata
