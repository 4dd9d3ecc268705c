import Schemata.Proofs.Reference.Data
import Schemata.Proofs.Validation.Events

/-!
# Data is not walked

Two documents that differ only in their data are validated in lockstep: what is asked of the
resolver and what required names are missed is the same on both walks, and so is the error if there
is one. Only the grammar looks at the data. What stands under a name is a schema even if the name is
that of a keyword with data.
-/

namespace Schemata

namespace Walk

variable {g : Tree → List Violation} {d : Disk} {down down' : String → TreePath → Walk → Outcome}
  {log log' : String → TreePath → Walk → List Event}

/-- Two walks that have come as far, through documents that differ only in their data. -/
structure Abreast (w w' : Walk) : Prop where
  resolver : w.resolver.withoutData = w'.resolver.withoutData
  stack : w.stack = w'.stack
  checked : w.checked = w'.checked

/-- An event without data, unless the grammar is violated. -/
def Event.withoutData : Event → Option Event
  | asks r raw file base => some (asks r.withoutData raw file base)
  | undeclared v => some (undeclared v)
  | breach _ => none

theorem Abreast.asked {w w' : Walk} (hw : Abreast w w') (raw : String) (base : TreePath) :
    (Event.asks w.resolver raw w.stack.currentFile base).withoutData =
      (Event.asks w'.resolver raw w'.stack.currentFile base).withoutData := by
  rw [Event.withoutData, Event.withoutData, hw.resolver, hw.stack]

/-- All pointers that are applied lead to roots and definitions. -/
def StaysLocal (d : Disk) (events : List Event) : Prop :=
  ∀ r raw file base, .asks r raw file base ∈ events → r.StaysLocal d raw file

theorem StaysLocal.mono {events events' : List Event} (h : StaysLocal d events)
    (hs : events' ⊆ events) : StaysLocal d events' :=
  fun r raw file base hm => h r raw file base (hs hm)

/-- Parts of two walks come to the same outcome from where they are abreast, and the same happens
on the way. -/
def Lockstep (d : Disk) (act act' : Walk → Outcome) (log log' : Walk → List Event) : Prop :=
  ∀ w w', Abreast w w' → StaysLocal d (log w) →
    (act w).1 = (act' w').1 ∧ Abreast (act w).2 (act' w').2 ∧
      (log w).filterMap Event.withoutData = (log' w').filterMap Event.withoutData

namespace Lockstep

theorem inTurn {α β : Type} {act act' : α → Walk → Outcome} {log log' : α → Walk → List Event}
    {f : α → β} {xs ys : List α} (hmap : xs.map f = ys.map f)
    (h : ∀ x ∈ xs, ∀ y, f x = f y → Lockstep d (act x) (act' y) (log x) (log' y)) :
    Lockstep d (Walk.inTurn act xs) (Walk.inTurn act' ys) (logInTurn act log xs)
      (logInTurn act' log' ys) := by
  induction xs generalizing ys with
  | nil =>
    cases ys with
    | nil => exact fun w w' hw _ => ⟨rfl, hw, rfl⟩
    | cons => cases hmap
  | cons x xs ih =>
    cases ys with
    | nil => cases hmap
    | cons y ys =>
      intro w w' hw hlocal
      rw [List.map_cons, List.map_cons, List.cons.injEq] at hmap
      rw [logInTurn] at hlocal
      obtain ⟨ho, hw₁, hlog⟩ := h x List.mem_cons_self y hmap.1 w w' hw
        (hlocal.mono (List.subset_append_left _ _))
      rw [inTurn_cons, inTurn_cons, andThen, andThen, logInTurn, logInTurn,
        List.filterMap_append, List.filterMap_append, hlog]
      rcases hx : act x w with ⟨o, w₁⟩
      rcases hy : act' y w' with ⟨o', w₁'⟩
      rw [hx, hy] at ho hw₁
      rw [hx] at hlocal
      cases ho
      cases o with
      | error e => exact ⟨rfl, hw₁, rfl⟩
      | ok _ =>
        obtain ⟨ho', hw', hlog'⟩ := ih hmap.2 (fun x hx => h x (List.mem_cons_of_mem _ hx))
          w₁ w₁' hw₁ (hlocal.mono (List.subset_append_right _ _))
        exact ⟨ho', hw', congrArg _ hlog'⟩

theorem through (hdown : ∀ raw base,
      Lockstep d (down raw base) (down' raw base) (log raw base) (log' raw base)) (t t' : Tree)
    (base : TreePath) (h : t.withoutData = t'.withoutData) :
    Lockstep d (Walk.through down t base) (Walk.through down' t' base)
      (logThrough down log t base) (logThrough down' log' t' base) := by
  induction t, base using through_induct generalizing t' with
  | scalar t base hm =>
    have hm' : ∀ es, t' ≠ .mapping es := by
      rintro es rfl
      obtain ⟨fs, rfl, -⟩ := Tree.exists_of_withoutData_eq h.symm
      exact hm fs rfl
    intro w w' hw _
    rw [through_scalar hm, through_scalar hm', logThrough_scalar hm, logThrough_scalar hm']
    exact ⟨rfl, hw, rfl⟩
  | reference es base raw hr =>
    obtain ⟨fs, rfl, -⟩ := Tree.exists_of_withoutData_eq h
    have hr' : (Tree.mapping fs).reference? = some raw := Tree.reference?_congr h ▸ hr
    intro w w' hw hlocal
    rw [logThrough_reference hr] at hlocal ⊢
    rw [through_reference hr, through_reference hr', logThrough_reference hr']
    exact hdown raw base w w' hw hlocal
  | inside es base hr ih =>
    obtain ⟨fs, rfl, hes⟩ := Tree.exists_of_withoutData_eq h
    have hr' : (Tree.mapping fs).reference? = none := Tree.reference?_congr h ▸ hr
    have hundeclared : undeclared es = undeclared fs := by
      rw [← Tree.undeclared_schemaWithoutData, hes, Tree.undeclared_schemaWithoutData]
    have hpositions : (Position.all es).map Position.withoutData =
        (Position.all fs).map Position.withoutData := by
      rw [← Position.all_withoutData, hes, Position.all_withoutData]
    -- the positions of both nodes are the same but for the data in the schemas there
    have hinside : Lockstep d
        (Walk.inTurn (fun p => Walk.through down p.2 (base ++ p.1)) (Position.all es))
        (Walk.inTurn (fun p => Walk.through down' p.2 (base ++ p.1)) (Position.all fs))
        (logInTurn (fun p => Walk.through down p.2 (base ++ p.1))
          (fun p => logThrough down log p.2 (base ++ p.1)) (Position.all es))
        (logInTurn (fun p => Walk.through down' p.2 (base ++ p.1))
          (fun p => logThrough down' log' p.2 (base ++ p.1)) (Position.all fs)) := by
      refine inTurn hpositions ?_
      rintro ⟨path, u⟩ hp ⟨path', u'⟩ hpq
      obtain ⟨rfl, hu⟩ := Prod.mk.inj hpq
      exact ih _ hp u' hu
    intro w w' hw hlocal
    rw [logThrough_positions hr] at hlocal ⊢
    rw [through_positions hr, through_positions hr', logThrough_positions hr',
      List.filterMap_append, List.filterMap_append, ← hundeclared]
    obtain ⟨ho, hw', hlog⟩ := hinside (w.report base (undeclared es))
      (w'.report base (undeclared es)) ⟨hw.resolver, hw.stack, hw.checked⟩
      (hlocal.mono (List.subset_append_right _ _))
    exact ⟨ho, hw', congrArg _ hlog⟩

theorem check (hdown : ∀ raw base,
      Lockstep d (down raw base) (down' raw base) (log raw base) (log' raw base)) (t t' : Tree)
    (base : TreePath) (h : t.withoutData = t'.withoutData) :
    Lockstep d (Walk.check g down t base) (Walk.check g down' t' base)
      (logCheck g down log t base) (logCheck g down' log' t' base) := by
  have unseen (vs : List Violation) :
      (vs.map fun v => Event.breach (v.under base)).filterMap Event.withoutData = [] := by
    simp [Event.withoutData]
  intro w w' hw hlocal
  rw [logCheck] at hlocal ⊢
  rw [logCheck, List.filterMap_append, List.filterMap_append, unseen, unseen]
  exact through hdown t t' base h (w.report base (g t)) (w'.report base (g t'))
    ⟨hw.resolver, hw.stack, hw.checked⟩ (hlocal.mono (List.subset_append_right _ _))

theorem leave {key : ResolutionKey} {o o' : Outcome} (h : o.1 = o'.1) (hw : Abreast o.2 o'.2) :
    (Walk.leave key o).1 = (Walk.leave key o').1 ∧
      Abreast (Walk.leave key o).2 (Walk.leave key o').2 := by
  obtain ⟨o, w⟩ := o
  obtain ⟨o', w'⟩ := o'
  cases h
  have hstack : w.stack.pop.2 = w'.stack.pop.2 := by rw [hw.stack]
  have hchecked : w.checked ++ [key] = w'.checked ++ [key] := by rw [hw.checked]
  cases o with
  | error e => exact ⟨rfl, hw.resolver, hstack, hw.checked⟩
  | ok _ => exact ⟨rfl, hw.resolver, hstack, hchecked⟩

theorem descend (room : Nat) (raw : String) (base : TreePath) :
    Lockstep d (Walk.descend g d room raw base) (Walk.descend g d room raw base)
      (logDescend g d room raw base) (logDescend g d room raw base) := by
  induction room using Nat.strongRecOn generalizing raw base with
  | ind room ih =>
    intro w w' hw hlocal
    have hasked := hw.asked raw base
    have halone : [Event.asks w.resolver raw w.stack.currentFile base].filterMap Event.withoutData =
        [Event.asks w'.resolver raw w'.stack.currentFile base].filterMap Event.withoutData := by
      rw [List.filterMap_cons, List.filterMap_cons, hasked]
    have hasks := hlocal _ _ _ _ asks_mem_logDescend
    -- both find the same key, which the stacks and the checked targets treat alike
    obtain ⟨q, q', hq, ⟨e, hr, hr'⟩ | ⟨key, u, u', hu, hr, hr'⟩⟩ :=
      Resolver.resolve_withoutData hw.resolver hasks
    · rw [hw.stack] at hr'
      rw [descend_unresolved hr, descend_unresolved hr', logDescend_unresolved hr,
        logDescend_unresolved hr']
      exact ⟨rfl, ⟨hq, hw.stack, hw.checked⟩, halone⟩
    · rw [hw.stack] at hr'
      by_cases hc : w.checked.any (·.same key)
      · have hc' : w'.checked.any (·.same key) := hw.checked ▸ hc
        rw [descend_checked hr hc, descend_checked hr' hc', logDescend_checked hr hc,
          logDescend_checked hr' hc']
        exact ⟨rfl, ⟨hq, hw.stack, hw.checked⟩, halone⟩
      have hc' : ¬ w'.checked.any (·.same key) := hw.checked ▸ hc
      cases hp : w.stack.push key with
      | error e =>
        have hp' : w'.stack.push key = .error e := hw.stack ▸ hp
        rw [descend_refused hr hc hp, descend_refused hr' hc' hp', logDescend_refused hr hc hp,
          logDescend_refused hr' hc' hp']
        exact ⟨rfl, ⟨hq, hw.stack, hw.checked⟩, halone⟩
      | ok stack =>
        have hp' : w'.stack.push key = .ok stack := hw.stack ▸ hp
        cases room with
        | zero =>
          rw [descend_full hr hc hp, descend_full hr' hc' hp', logDescend_full hr hc hp,
            logDescend_full hr' hc' hp']
          exact ⟨by rw [hw.stack], ⟨hq, hw.stack, hw.checked⟩, halone⟩
        | succ room =>
          have hin := check (g := g) (ih room (Nat.lt_succ_self room)) u u'
            (base ++ [.key "$ref"]) hu { w with resolver := q, stack := stack }
            { w' with resolver := q', stack := stack } ⟨hq, rfl, hw.checked⟩
          rw [logDescend_entered hr hc hp] at hlocal ⊢
          rw [descend_entered hr hc hp, descend_entered hr' hc' hp',
            logDescend_entered hr' hc' hp', List.filterMap_cons, List.filterMap_cons, hasked]
          obtain ⟨ho, hw', hlog⟩ := hin (hlocal.mono (List.subset_cons_self _ _))
          obtain ⟨ho', hw''⟩ := leave ho hw'
          exact ⟨ho', hw'', by rw [hlog]⟩

end Lockstep

theorem Abreast.start {s s' : Schema} (d : Disk) (r : Resolver) (hpath : s'.path = s.path)
    (hroot : s.root.withoutData = s'.root.withoutData) :
    Abreast (start d r s) (start d r s') where
  resolver := by
    rw [Walk.start, Walk.start, hpath]
    exact Resolver.put_withoutData_congr rfl hroot
  stack := by rw [Walk.start, Walk.start, hpath]
  checked := rfl

end Walk

namespace Schema

variable {g : Tree → List Violation} {d : Disk} {r : Resolver} {s s' : Schema}

theorem lockstep_run (hpath : s'.path = s.path) (hroot : s.root.withoutData = s'.root.withoutData)
    (hlocal : Walk.StaysLocal d (s.events g d r)) :
    (Walk.run g d r s).1 = (Walk.run g d r s').1 ∧
      (s.events g d r).filterMap Walk.Event.withoutData =
        (s'.events g d r).filterMap Walk.Event.withoutData := by
  have hw := Walk.Abreast.start d r hpath hroot
  obtain ⟨ho, -, hlog⟩ := Walk.Lockstep.check (g := g) (Walk.Lockstep.descend (d := d)
    (Walk.start d r s).stack.room) s.root s'.root [] hroot (Walk.start d r s)
    (Walk.start d r s') hw hlocal
  rw [hw.stack] at ho hlog
  rw [Walk.run, Walk.run, events, events, hw.stack]
  exact ⟨ho, hlog⟩

theorem exists_event (hlog : (s.events g d r).filterMap Walk.Event.withoutData =
      (s'.events g d r).filterMap Walk.Event.withoutData) {ev ev₀ : Walk.Event}
    (hev : ev ∈ s.events g d r) (he : ev.withoutData = some ev₀) :
    ∃ ev' ∈ s'.events g d r, ev'.withoutData = some ev₀ := by
  have hmem := List.mem_filterMap.2 ⟨ev, hev, he⟩
  rw [hlog] at hmem
  exact List.mem_filterMap.1 hmem

theorem exists_asks (hlog : (s.events g d r).filterMap Walk.Event.withoutData =
      (s'.events g d r).filterMap Walk.Event.withoutData) {raw : String} {file : FilePath}
    {base : TreePath} (h : ∃ q, .asks q raw file base ∈ s.events g d r) :
    ∃ q, .asks q raw file base ∈ s'.events g d r := by
  obtain ⟨q, hq⟩ := h
  obtain ⟨ev, hev, he⟩ := exists_event hlog hq rfl
  cases ev with
  | asks q' raw' file' base' =>
    obtain ⟨-, rfl, rfl, rfl⟩ := Walk.Event.asks.inj (Option.some.inj he)
    exact ⟨q', hev⟩
  | undeclared => cases he
  | breach => cases he

theorem undeclared_mem (hlog : (s.events g d r).filterMap Walk.Event.withoutData =
      (s'.events g d r).filterMap Walk.Event.withoutData) {v : Violation}
    (hv : .undeclared v ∈ s.events g d r) : .undeclared v ∈ s'.events g d r := by
  obtain ⟨ev, hev, he⟩ := exists_event hlog hv rfl
  cases ev with
  | asks => cases he
  | undeclared u =>
    cases he
    exact hev
  | breach => cases he

theorem validate_eq_error {e : LoadError} :
    (s.validate g d r).1 = .error e ↔ (Walk.run g d r s).1 = .error e := by
  rw [validate]
  rcases Walk.run g d r s with ⟨e' | _, w⟩ <;> simp

/-- Documents that differ only in their data get the same error, or miss the same required names.
References and required names are looked at where a schema stands, be it under a name like
`examples`. -/
theorem validate_withoutData (hpath : s'.path = s.path)
    (hroot : s.root.withoutData = s'.root.withoutData)
    (hlocal : Walk.StaysLocal d (s.events g d r)) :
    ((∃ e, (s.validate g d r).1 = .error e ∧ (s'.validate g d r).1 = .error e) ∨
      ∃ vs vs', (s.validate g d r).1 = .ok vs ∧ (s'.validate g d r).1 = .ok vs' ∧
        (∀ v, v ∈ vs ↔ .undeclared v ∈ s.events g d r ∨ .breach v ∈ s.events g d r) ∧
        (∀ v, v ∈ vs' ↔ .undeclared v ∈ s'.events g d r ∨ .breach v ∈ s'.events g d r) ∧
        (∀ v, .undeclared v ∈ s.events g d r ↔ .undeclared v ∈ s'.events g d r) ∧
        ∀ es keyword children name t, s.root.Holds (.mapping es) →
          (Tree.mapping es).reference? = none → keyword ∈ Keyword.named →
          Entries.get? es keyword = some (.mapping children) → (name, t) ∈ children →
          (∀ raw, t.Refers raw → ∃ q file base, .asks q raw file base ∈ s.events g d r) ∧
          ∀ fs, t.Holds (.mapping fs) → (Tree.mapping fs).reference? = none →
            ∃ base, ∀ v ∈ undeclared fs, .undeclared (v.under base) ∈ s.events g d r) ∧
    (∀ raw file base, (∃ q, .asks q raw file base ∈ s.events g d r) ↔
      ∃ q, .asks q raw file base ∈ s'.events g d r) ∧
    ∀ ev ∈ s.events g d r, ev.Within g s.root ∨ ev.FromTarget g d (s.events g d r) := by
  obtain ⟨hrun, hlog⟩ := lockstep_run hpath hroot hlocal
  refine ⟨?_, fun raw file base => ⟨exists_asks hlog, exists_asks hlog.symm⟩,
    fun ev => within_of_mem_events⟩
  · cases h : (s.validate g d r).1 with
    | error e =>
      have h' : (s'.validate g d r).1 = .error e :=
        validate_eq_error.2 (hrun ▸ validate_eq_error.1 h)
      exact .inl ⟨e, rfl, h'⟩
    | ok vs =>
      cases h' : (s'.validate g d r).1 with
      | error e =>
        have := validate_eq_error.2 (hrun.trans (validate_eq_error.1 h'))
        rw [h] at this
        cases this
      | ok vs' =>
        refine .inr ⟨vs, vs', rfl, rfl, mem_of_validate h, mem_of_validate h', fun v =>
          ⟨undeclared_mem hlog, undeclared_mem hlog.symm⟩, ?_⟩
        intro es keyword children name t hes hr hk hc ht
        have hinside : s.root.Holds t := hes.trans (.inside hr (.named hk hc ht) (.here t))
        constructor
        · rintro raw ⟨u, hu, hraw⟩
          exact asks_of_holds h ⟨u, hinside.trans hu, hraw⟩
        · intro fs hfs hr'
          exact undeclared_of_holds h (hinside.trans hfs) hr'

end Schema

namespace Specimen

def schema (data : Tree) : Schema :=
  .ofTree ⟨"/a.json"⟩ ⟨"/"⟩ (.mapping
    [("enum", data),
      ("definitions", .mapping [("enum", .mapping [("required", .list [.string "x"])])]),
      ("properties", .mapping
        [("examples", .mapping [("$ref", .string "#/definitions/enum")])])])

def data : Tree :=
  .list [.mapping [("$ref", .string "b.json"), ("required", .list [.string "y"])]]

def resolver (data : Tree) : Resolver := ⟨[(⟨"/a.json"⟩, (schema data).root)], none⟩

def disk : Disk := ⟨[], []⟩

theorem events_eq : (schema data).events (fun _ => []) disk .empty =
    [.asks (resolver data) "#/definitions/enum" ⟨"/a.json"⟩ [.key "properties", .key "examples"],
      .undeclared ⟨[.key "properties", .key "examples", .key "$ref", .key "required", .index 0],
        undeclaredMessage "x"⟩,
      .undeclared ⟨[.key "definitions", .key "enum", .key "required", .index 0],
        undeclaredMessage "x"⟩] := by
  decide +kernel

theorem staysLocal : Walk.StaysLocal disk ((schema data).events (fun _ => []) disk .empty) := by
  have hlocal : Pointer.IsLocal "/definitions/enum" := .inr ⟨"enum", by decide, by decide⟩
  have hcourse : Resolver.Applies disk (resolver data) "#/definitions/enum" ⟨"/a.json"⟩ []
      ["/definitions/enum"] (.ok ⟨⟨⟨"/a.json"⟩, "/definitions/enum"⟩,
        .mapping [("required", .list [.string "x"])]⟩, (resolver data).keep ⟨"/a.json"⟩
          (schema data).root) := by
    have hkey : Resolver.keyOf (resolver data).idBase disk "#/definitions/enum" ⟨"/a.json"⟩ =
        .ok ⟨⟨"/a.json"⟩, "/definitions/enum"⟩ := by decide
    exact .arrives hkey (by decide +kernel) (by decide +kernel) (by decide +kernel)
      (by decide)
  intro q raw file base hm pointers o happlies p hp
  rw [events_eq] at hm
  obtain ⟨rfl, rfl, rfl, rfl⟩ : q = resolver data ∧ raw = "#/definitions/enum" ∧
      file = ⟨"/a.json"⟩ ∧ base = [.key "properties", .key "examples"] := by
    simpa using hm
  rw [(happlies.unique hcourse).1, List.mem_singleton] at hp
  exact hp ▸ hlocal

theorem same_undeclared : (schema .null).path = (schema data).path ∧
    (schema data).root.withoutData = (schema .null).root.withoutData ∧
    Walk.StaysLocal disk ((schema data).events (fun _ => []) disk .empty) ∧
    ∃ vs vs', ((schema data).validate (fun _ => []) disk .empty).1 = .ok vs ∧
      ((schema .null).validate (fun _ => []) disk .empty).1 = .ok vs' ∧
      ∀ v, .undeclared v ∈ (schema data).events (fun _ => []) disk .empty ↔
        .undeclared v ∈ (schema .null).events (fun _ => []) disk .empty := by
  have hpath : (schema .null).path = (schema data).path := rfl
  have hroot : (schema data).root.withoutData = (schema .null).root.withoutData := by
    decide
  obtain ⟨⟨e, he, -⟩ | ⟨vs, vs', hvs, hvs', -, -, hv, -⟩, -⟩ :=
    Schema.validate_withoutData hpath hroot staysLocal
  · have hok : (Walk.run (fun _ => []) disk .empty (schema data)).1 = .ok () := by decide +kernel
    rw [Schema.validate_eq_error, hok] at he
    cases he
  · exact ⟨hpath, hroot, staysLocal, vs, vs', hvs, hvs', hv⟩

end Specimen

end Schemata
