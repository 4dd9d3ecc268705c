import Schemata.Proofs.Validation.Positions
import Schemata.Proofs.Validation.Steps

/-!
# What happens on a walk

The log of a walk tells the references that it hands to the resolver and the violations that it
reports, those of the grammar apart from required names that are not declared. It holds what a
schema in the document asks for, and nothing that is not written in a schema of the document or of a
target.
-/

namespace Schemata

instance : DecidableEq Resolver := fun q r =>
  decidable_of_iff (q.cache = r.cache ∧ q.idBase = r.idBase) (by cases q; cases r; simp)

namespace Walk

inductive Event where
  /-- A reference, met in a file and at a place of the document, is handed to the resolver. -/
  | asks (r : Resolver) (raw : String) (file : FilePath) (base : TreePath)
  /-- A required name is not declared. -/
  | undeclared (v : Violation)
  /-- The grammar is violated. -/
  | breach (v : Violation)
deriving DecidableEq

def Event.violation? : Event → Option Violation
  | asks .. => none
  | undeclared v | breach v => some v

def logInTurn {α : Type} (act : α → Walk → Outcome) (log : α → Walk → List Event) :
    List α → Walk → List Event
  | [], _ => []
  | a :: as, w =>
    log a w ++
      match act a w with
      | (.error _, _) => []
      | (.ok (), w) => logInTurn act log as w

def logThrough (descend : String → TreePath → Walk → Outcome)
    (log : String → TreePath → Walk → List Event) (t : Tree) (base : TreePath) (w : Walk) :
    List Event :=
  match t with
  | .mapping es =>
    match (Tree.mapping es).reference? with
    | some raw => log raw base w
    | none =>
      (undeclared es).map (fun v => .undeclared (v.under base)) ++
        logInTurn (fun p => through descend p.1.2 (base ++ p.1.1))
          (fun p => logThrough descend log p.1.2 (base ++ p.1.1)) (Position.all es).attach
          (w.report base (undeclared es))
  | _ => []
termination_by t.size
decreasing_by exact Position.size_lt p.2

def logCheck (grammar : Tree → List Violation) (descend : String → TreePath → Walk → Outcome)
    (log : String → TreePath → Walk → List Event) (t : Tree) (base : TreePath) (w : Walk) :
    List Event :=
  (grammar t).map (fun v => .breach (v.under base)) ++
    logThrough descend log t base (w.report base (grammar t))

def logDescend (grammar : Tree → List Violation) (d : Disk) :
    (room : Nat) → String → TreePath → Walk → List Event
  | room, raw, base, w =>
    .asks w.resolver raw w.stack.currentFile base ::
      match w.resolver.resolve d raw w.stack with
      | (.error _, _) => []
      | (.ok target, r) =>
        if w.checked.any (·.same target.key) then []
        else
          match room, w.stack.push target.key with
          | _, .error _ => []
          | 0, .ok _ => []
          | room + 1, .ok stack =>
            logCheck grammar (descend grammar d room) (logDescend grammar d room) target.value
              (base ++ [.key "$ref"]) { w with resolver := r, stack := stack }

end Walk

/-- What happens on the walk over a document. -/
def Schema.events (g : Tree → List Violation) (d : Disk) (r : Resolver) (s : Schema) :
    List Walk.Event :=
  let w := Walk.start d r s
  Walk.logCheck g (Walk.descend g d w.stack.room) (Walk.logDescend g d w.stack.room) s.root [] w

namespace Walk

variable {g : Tree → List Violation} {d : Disk} {down : String → TreePath → Walk → Outcome}
  {log : String → TreePath → Walk → List Event} {es : Entries} {base : TreePath} {t u : Tree}
  {w : Walk} {raw : String} {room : Nat} {r' : Resolver} {target : Target} {e : LoadError}
  {stack : ResolutionStack}

theorem inTurn_attach {α : Type} (act : α → Walk → Outcome) (xs : List α) :
    inTurn (fun x : {x // x ∈ xs} => act x.1) xs.attach = inTurn act xs := by
  have hmap (ys : List {x // x ∈ xs}) :
      inTurn (fun x : {x // x ∈ xs} => act x.1) ys = inTurn act (ys.map (·.1)) := by
    induction ys with
    | nil => rfl
    | cons y ys ih => rw [List.map_cons, inTurn_cons, inTurn_cons, ih]
  rw [hmap, List.attach_map_subtype_val]

theorem logInTurn_attach {α : Type} (act : α → Walk → Outcome) (log : α → Walk → List Event)
    (xs : List α) :
    logInTurn (fun x : {x // x ∈ xs} => act x.1) (fun x => log x.1) xs.attach =
      logInTurn act log xs := by
  have hmap (ys : List {x // x ∈ xs}) :
      logInTurn (fun x : {x // x ∈ xs} => act x.1) (fun x => log x.1) ys =
        logInTurn act log (ys.map (·.1)) := by
    induction ys with
    | nil => rfl
    | cons y ys ih =>
      funext w
      rw [List.map_cons, logInTurn, logInTurn, ih]
  rw [hmap, List.attach_map_subtype_val]

theorem through_positions (h : (Tree.mapping es).reference? = none) :
    through down (.mapping es) base w = inTurn (fun p => through down p.2 (base ++ p.1))
      (Position.all es) (w.report base (undeclared es)) := by
  rw [through_inside h,
    inTurn_attach (fun p : Position => through down p.2 (base ++ p.1)) (Position.all es)]

theorem logThrough_reference (h : (Tree.mapping es).reference? = some raw) :
    logThrough down log (.mapping es) base w = log raw base w := by
  rw [logThrough, h]

theorem logThrough_positions (h : (Tree.mapping es).reference? = none) :
    logThrough down log (.mapping es) base w =
      (undeclared es).map (fun v => .undeclared (v.under base)) ++
        logInTurn (fun p => through down p.2 (base ++ p.1))
          (fun p => logThrough down log p.2 (base ++ p.1)) (Position.all es)
          (w.report base (undeclared es)) := by
  rw [logThrough, h]
  exact congrArg _ (congrFun (logInTurn_attach
    (fun p : Position => through down p.2 (base ++ p.1))
    (fun p => logThrough down log p.2 (base ++ p.1)) (Position.all es)) _)

theorem logThrough_scalar (h : ∀ es, t ≠ .mapping es) : logThrough down log t base w = [] := by
  rw [logThrough]
  exact h

theorem logDescend_unresolved (h : w.resolver.resolve d raw w.stack = (.error e, r')) :
    logDescend g d room raw base w = [.asks w.resolver raw w.stack.currentFile base] := by
  rw [logDescend, h]

theorem logDescend_checked (h : w.resolver.resolve d raw w.stack = (.ok target, r'))
    (hc : w.checked.any (·.same target.key)) :
    logDescend g d room raw base w = [.asks w.resolver raw w.stack.currentFile base] := by
  rw [logDescend, h]
  exact congrArg _ (if_pos hc)

theorem logDescend_refused (h : w.resolver.resolve d raw w.stack = (.ok target, r'))
    (hc : ¬ w.checked.any (·.same target.key)) (hp : w.stack.push target.key = .error e) :
    logDescend g d room raw base w = [.asks w.resolver raw w.stack.currentFile base] := by
  rw [logDescend, h]
  simp only [hc, hp]
  rfl

theorem logDescend_full (h : w.resolver.resolve d raw w.stack = (.ok target, r'))
    (hc : ¬ w.checked.any (·.same target.key)) (hp : w.stack.push target.key = .ok stack) :
    logDescend g d 0 raw base w = [.asks w.resolver raw w.stack.currentFile base] := by
  rw [logDescend, h]
  simp only [hc, hp]
  rfl

theorem logDescend_entered (h : w.resolver.resolve d raw w.stack = (.ok target, r'))
    (hc : ¬ w.checked.any (·.same target.key)) (hp : w.stack.push target.key = .ok stack) :
    logDescend g d (room + 1) raw base w = .asks w.resolver raw w.stack.currentFile base ::
      logCheck g (descend g d room) (logDescend g d room) target.value (base ++ [.key "$ref"])
        { w with resolver := r', stack := stack } := by
  rw [logDescend, h]
  simp only [hc, hp]
  rfl

theorem asks_mem_logDescend : .asks w.resolver raw w.stack.currentFile base ∈
    logDescend g d room raw base w := by
  rw [logDescend]
  exact List.mem_cons_self

structure Enters (g : Tree → List Violation) (d : Disk) (room : Nat) (raw : String)
    (base : TreePath) (w : Walk) (target : Target) (inside : Walk) (room' : Nat) : Prop where
  resolved : (w.resolver.resolve d raw w.stack).1 = .ok target
  room_eq : room = room' + 1
  violations : inside.violations = w.violations
  descend : descend g d room raw base w = leave target.key
    (check g (Walk.descend g d room') target.value (base ++ [.key "$ref"]) inside)
  log : logDescend g d room raw base w = .asks w.resolver raw w.stack.currentFile base ::
    logCheck g (Walk.descend g d room') (logDescend g d room') target.value
      (base ++ [.key "$ref"]) inside

/-- A descent enters its target, or asks and leaves the walk as it is. -/
theorem enters_or_stays (g : Tree → List Violation) (d : Disk) (room : Nat) (raw : String)
    (base : TreePath) (w : Walk) :
    (∃ target inside room', Enters g d room raw base w target inside room') ∨
      (descend g d room raw base w).2.violations = w.violations ∧
        logDescend g d room raw base w = [.asks w.resolver raw w.stack.currentFile base] := by
  rcases hres : w.resolver.resolve d raw w.stack with ⟨e | target, r'⟩
  · exact .inr ⟨by rw [descend_unresolved hres], logDescend_unresolved hres⟩
  by_cases hc : w.checked.any (·.same target.key)
  · exact .inr ⟨by rw [descend_checked hres hc], logDescend_checked hres hc⟩
  cases hp : w.stack.push target.key with
  | error e => exact .inr ⟨by rw [descend_refused hres hc hp], logDescend_refused hres hc hp⟩
  | ok stack =>
    cases room with
    | zero => exact .inr ⟨by rw [descend_full hres hc hp], logDescend_full hres hc hp⟩
    | succ room =>
      exact .inl ⟨target, { w with resolver := r', stack := stack }, room, by rw [hres], rfl, rfl,
        descend_entered hres hc hp, logDescend_entered hres hc hp⟩

def Records (act : Walk → Outcome) (log : Walk → List Event) : Prop :=
  ∀ w, (act w).2.violations = w.violations ++ (log w).filterMap Event.violation?

theorem filterMap_report {tag : Violation → Event} (h : ∀ v, (tag v).violation? = some v)
    (vs : List Violation) (base : TreePath) :
    (vs.map fun v => tag (v.under base)).filterMap Event.violation? = vs.map (·.under base) := by
  induction vs with
  | nil => rfl
  | cons v vs ih => rw [List.map_cons, List.filterMap_cons, h, ih, List.map_cons]

@[simp] theorem leave_violations (key : ResolutionKey) (o : Outcome) :
    (leave key o).2.violations = o.2.violations := by
  rcases o with ⟨e | _, w⟩ <;> rfl

namespace Records

theorem inTurn {α : Type} {act : α → Walk → Outcome} {log : α → Walk → List Event} (xs : List α)
    (hx : ∀ x ∈ xs, Records (act x) (log x)) :
    Records (Walk.inTurn act xs) (logInTurn act log xs) := by
  induction xs with
  | nil => exact fun w => (List.append_nil _).symm
  | cons x xs ih =>
    intro w
    have hhead := hx x List.mem_cons_self w
    have htail := ih fun y hy => hx y (List.mem_cons_of_mem _ hy)
    rw [inTurn_cons, andThen, logInTurn, List.filterMap_append, ← List.append_assoc, ← hhead]
    rcases act x w with ⟨e | _, w'⟩
    · exact (List.append_nil _).symm
    · exact htail w'

theorem through (hdown : ∀ raw base, Records (down raw base) (log raw base)) (t : Tree)
    (base : TreePath) : Records (Walk.through down t base) (logThrough down log t base) := by
  induction t, base using through_induct with
  | scalar t base hm =>
    intro w
    rw [through_scalar hm, logThrough_scalar hm]
    exact (List.append_nil _).symm
  | reference es base raw hr =>
    intro w
    rw [through_reference hr, logThrough_reference hr]
    exact hdown raw base w
  | inside es base hr ih =>
    intro w
    rw [through_positions hr, logThrough_positions hr, List.filterMap_append,
      filterMap_report (fun _ => rfl), inTurn _ ih, ← List.append_assoc]
    rfl

theorem check (hdown : ∀ raw base, Records (down raw base) (log raw base)) (t : Tree)
    (base : TreePath) : Records (Walk.check g down t base) (logCheck g down log t base) := by
  intro w
  rw [Walk.check, logCheck, List.filterMap_append, filterMap_report (fun _ => rfl),
    through hdown t base, ← List.append_assoc]
  rfl

theorem descend (room : Nat) (raw : String) (base : TreePath) :
    Records (Walk.descend g d room raw base) (logDescend g d room raw base) := by
  induction room using Nat.strongRecOn generalizing raw base with
  | ind room ih =>
    intro w
    obtain ⟨target, inside, room', h⟩ | ⟨hv, hl⟩ := enters_or_stays g d room raw base w
    · have hlt : room' < room := h.room_eq ▸ Nat.lt_succ_self room'
      rw [h.descend, h.log, leave_violations, check (ih room' hlt) target.value, h.violations]
      rfl
    · rw [hv, hl]
      exact (List.append_nil _).symm

end Records

theorem exists_log_of_mem {α : Type} {act : α → Walk → Outcome} (log : α → Walk → List Event)
    {x : α} {xs : List α} (hx : x ∈ xs) {w : Walk} (hok : (inTurn act xs w).1 = .ok ()) :
    ∃ w', (act x w').1 = .ok () ∧ log x w' ⊆ logInTurn act log xs w := by
  induction xs generalizing w with
  | nil => cases hx
  | cons y ys ih =>
    rw [inTurn_cons, andThen] at hok
    rcases hy : act y w with ⟨e | _, w₁⟩
    · rw [hy] at hok
      cases hok
    rw [hy] at hok
    have hlog : logInTurn act log (y :: ys) w = log y w ++ logInTurn act log ys w₁ := by
      rw [logInTurn, hy]
    rw [hlog]
    rcases List.mem_cons.1 hx with rfl | hx
    · exact ⟨w, by rw [hy], List.subset_append_left _ _⟩
    · obtain ⟨w', hw', hs⟩ := ih hx hok
      exact ⟨w', hw', List.Subset.trans hs (List.subset_append_right _ _)⟩

/-- If a walk comes to its end, its log has the log of every schema in the tree. -/
theorem exists_log_of_holds (hu : t.Holds u) {w : Walk}
    (hok : (through down t base w).1 = .ok ()) :
    ∃ base' w', logThrough down log u base' w' ⊆ logThrough down log t base w := by
  induction hu generalizing base w with
  | here t => exact ⟨base, w, fun _ h => h⟩
  | @inside es t u hr ht hu ih =>
    obtain ⟨p, hp, rfl⟩ := Position.exists_mem_all.2 ht
    rw [through_positions hr] at hok
    obtain ⟨w₁, hok', hs⟩ :=
      exists_log_of_mem (fun p => logThrough down log p.2 (base ++ p.1)) hp hok
    obtain ⟨base', w', hs'⟩ := ih hok'
    refine ⟨base', w', List.Subset.trans hs' (List.Subset.trans hs ?_)⟩
    rw [logThrough_positions hr]
    exact List.subset_append_right _ _

end Walk

def Tree.Undeclares (t : Tree) (v : Violation) : Prop :=
  ∃ es base, t.Holds (.mapping es) ∧ (Tree.mapping es).reference? = none ∧
    ∃ u ∈ undeclared es, v = u.under base

namespace Walk

/-- The reference or the violation of an event is that of a schema in the tree, or of the tree. -/
def Event.Within (g : Tree → List Violation) (t : Tree) : Event → Prop
  | asks _ raw _ _ => t.Refers raw
  | undeclared v => t.Undeclares v
  | breach v => ∃ base, ∃ u ∈ g t, v = u.under base

def Event.FromTarget (g : Tree → List Violation) (d : Disk) (events : List Event) (e : Event) :
    Prop :=
  ∃ r raw file base target, asks r raw file base ∈ events ∧
    (r.resolveIn d raw file).1 = .ok target ∧ e.Within g target.value

variable {ev : Event} {events events' : List Event}

theorem Event.FromTarget.mono (h : ev.FromTarget g d events) (hs : events ⊆ events') :
    ev.FromTarget g d events' := by
  obtain ⟨r, raw, file, base, target, hm, hrest⟩ := h
  exact ⟨r, raw, file, base, target, hs hm, hrest⟩

theorem mem_of_mem_logInTurn {α : Type} {act : α → Walk → Outcome}
    {log : α → Walk → List Event} {xs : List α} {w : Walk} (h : ev ∈ logInTurn act log xs w) :
    ∃ x ∈ xs, ∃ w', ev ∈ log x w' ∧ log x w' ⊆ logInTurn act log xs w := by
  induction xs generalizing w with
  | nil => cases h
  | cons y ys ih =>
    rw [logInTurn] at h ⊢
    rcases List.mem_append.1 h with h | h
    · exact ⟨y, List.mem_cons_self, w, h, List.subset_append_left _ _⟩
    · rcases hy : act y w with ⟨e | _, w₁⟩
      · rw [hy] at h
        cases h
      · rw [hy] at h
        obtain ⟨x, hx, w', hw', hs⟩ := ih h
        exact ⟨x, List.mem_cons_of_mem _ hx, w', hw',
          List.Subset.trans hs (List.subset_append_right _ _)⟩

/-- What happens on a walk through a tree is told by a schema in the tree, or happens on following a
reference there. -/
theorem mem_of_mem_logThrough {w : Walk} (h : ev ∈ logThrough down log t base w) :
    (∃ v, ev = .undeclared v ∧ t.Undeclares v) ∨ ∃ raw base' w', t.Refers raw ∧
      ev ∈ log raw base' w' ∧ log raw base' w' ⊆ logThrough down log t base w := by
  induction t, base using through_induct generalizing w with
  | scalar t base hm =>
    rw [logThrough_scalar hm] at h
    cases h
  | reference es base raw hr =>
    rw [logThrough_reference hr] at h ⊢
    exact .inr ⟨raw, base, w, ⟨_, .here _, hr⟩, h, fun _ he => he⟩
  | inside es base hr ih =>
    rw [logThrough_positions hr] at h ⊢
    rcases List.mem_append.1 h with h | h
    · obtain ⟨u, hu, rfl⟩ := List.mem_map.1 h
      exact .inl ⟨_, rfl, es, base, .here _, hr, u, hu, rfl⟩
    · obtain ⟨p, hp, w₁, he, hs⟩ := mem_of_mem_logInTurn h
      have hinside := Position.exists_mem_all.1 ⟨p, hp, rfl⟩
      obtain ⟨v, rfl, es', base', hes, hrest⟩ | ⟨raw, base', w', ⟨u, hu, hr'⟩, hm, hs'⟩ :=
        ih p hp he
      · exact .inl ⟨v, rfl, es', base', .inside hr hinside hes, hrest⟩
      · exact .inr ⟨raw, base', w', ⟨u, .inside hr hinside hu, hr'⟩, hm,
          List.Subset.trans hs' (List.Subset.trans hs (List.subset_append_right _ _))⟩

theorem mem_of_mem_logCheck (hlog : ∀ raw base w, ∀ ev ∈ log raw base w,
      (∃ r file, ev = .asks r raw file base) ∨ ev.FromTarget g d (log raw base w)) {w : Walk}
    (h : ev ∈ logCheck g down log t base w) :
    ev.Within g t ∨ ev.FromTarget g d (logCheck g down log t base w) := by
  rw [logCheck] at h ⊢
  rcases List.mem_append.1 h with h | h
  · obtain ⟨u, hu, rfl⟩ := List.mem_map.1 h
    exact .inl ⟨base, u, hu, rfl⟩
  · obtain ⟨v, rfl, hv⟩ | ⟨raw, base', w', hraw, hm, hs⟩ := mem_of_mem_logThrough h
    · exact .inl hv
    · obtain ⟨r, file, rfl⟩ | ht := hlog raw base' w' ev hm
      · exact .inl hraw
      · exact .inr (ht.mono (List.Subset.trans hs (List.subset_append_right _ _)))

theorem mem_of_mem_logDescend (h : ev ∈ logDescend g d room raw base w) :
    (∃ r file, ev = .asks r raw file base) ∨
      ev.FromTarget g d (logDescend g d room raw base w) := by
  induction room using Nat.strongRecOn generalizing raw base w ev with
  | ind room ih =>
    obtain ⟨target, inside, room', hin⟩ | ⟨-, hl⟩ := enters_or_stays g d room raw base w
    · have hlt : room' < room := hin.room_eq ▸ Nat.lt_succ_self room'
      rw [hin.log] at h ⊢
      rcases List.mem_cons.1 h with rfl | h
      · exact .inl ⟨_, _, rfl⟩
      · right
        rcases mem_of_mem_logCheck (fun raw base w ev => ih room' hlt) h with hev | hev
        · exact ⟨_, _, _, _, target, List.mem_cons_self, hin.resolved, hev⟩
        · exact hev.mono (List.subset_cons_self _ _)
    · rw [hl] at h
      exact .inl ⟨_, _, List.mem_singleton.1 h⟩

end Walk

namespace Schema

variable {g : Tree → List Violation} {d : Disk} {r : Resolver} {s : Schema} {es : Entries}
  {u : Tree} {raw : String}

theorem violations_run : (Walk.run g d r s).2.violations =
    (s.events g d r).filterMap Walk.Event.violation? :=
  Walk.Records.check (Walk.Records.descend _) s.root [] (Walk.start d r s)

theorem mem_of_validate {vs : List Violation} (h : (s.validate g d r).1 = .ok vs)
    (v : Violation) :
    v ∈ vs ↔ .undeclared v ∈ s.events g d r ∨ .breach v ∈ s.events g d r := by
  obtain ⟨w, hw, rfl⟩ := validate_eq_ok.1 h
  have hvs : w.violations = (s.events g d r).filterMap Walk.Event.violation? := by
    rw [← violations_run, hw]
  rw [Violation.mem_canonical, hvs, List.mem_filterMap]
  constructor
  · rintro ⟨ev, hev, hv⟩
    cases ev with
    | asks => cases hv
    | undeclared u =>
      cases hv
      exact .inl hev
    | breach u =>
      cases hv
      exact .inr hev
  · rintro (hev | hev)
    · exact ⟨_, hev, rfl⟩
    · exact ⟨_, hev, rfl⟩

/-- What happens is written in a schema of the document, or of the target of a reference that is
asked for. -/
theorem within_of_mem_events {ev : Walk.Event} (h : ev ∈ s.events g d r) :
    ev.Within g s.root ∨ ev.FromTarget g d (s.events g d r) :=
  Walk.mem_of_mem_logCheck (fun _ _ _ _ => Walk.mem_of_mem_logDescend) h

/-- On a walk that comes to its end, every schema in the document is met. -/
theorem exists_log_of_holds {vs : List Violation} (h : (s.validate g d r).1 = .ok vs)
    (hu : s.root.Holds u) : ∃ room base w,
      Walk.logThrough (Walk.descend g d room) (Walk.logDescend g d room) u base w ⊆
        s.events g d r := by
  obtain ⟨w, hw, -⟩ := validate_eq_ok.1 h
  have hok := congrArg Prod.fst hw
  obtain ⟨base, w', hs⟩ := Walk.exists_log_of_holds hu hok
  exact ⟨_, base, w', List.Subset.trans hs (List.subset_append_right _ _)⟩

theorem asks_of_holds {vs : List Violation} (h : (s.validate g d r).1 = .ok vs)
    (hraw : s.root.Refers raw) : ∃ q file base, .asks q raw file base ∈ s.events g d r := by
  obtain ⟨u, hu, hr⟩ := hraw
  obtain ⟨room, base, w, hs⟩ := exists_log_of_holds h hu
  cases u with
  | mapping es =>
    rw [Walk.logThrough_reference hr] at hs
    exact ⟨_, _, _, hs Walk.asks_mem_logDescend⟩
  | _ => cases hr

theorem undeclared_of_holds {vs : List Violation} (h : (s.validate g d r).1 = .ok vs)
    (hes : s.root.Holds (.mapping es)) (hr : (Tree.mapping es).reference? = none) :
    ∃ base, ∀ v ∈ undeclared es, .undeclared (v.under base) ∈ s.events g d r := by
  obtain ⟨room, base, w, hs⟩ := exists_log_of_holds h hes
  rw [Walk.logThrough_positions hr] at hs
  exact ⟨base, fun v hv => hs (List.mem_append_left _ (List.mem_map_of_mem hv))⟩

end Schema

end Schemata
