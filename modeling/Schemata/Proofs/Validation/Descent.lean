import Schemata.Proofs.Validation.Graph
import Schemata.Proofs.Validation.Steps

/-!
# The invariant of the walk

A walk goes along a path of nodes that lead to one another, and leaves nodes done behind it that
are settled among themselves. `Serves` says of a part of the walk that it keeps this invariant,
that the references it should follow lead to nodes done in the end, and that it reports a violation
just in case something is unclean; where it fails, there is a reason for that.
-/

namespace Schemata

open Relation

variable {g : Tree → List Violation} {d : Disk} {r : Resolver} {s : Schema}

/-- The files that keys of a validation may name: plain ones, and the document's as it was given. -/
def Schema.Scope (d : Disk) (s : Schema) (f : FilePath) : Prop :=
  f.plain = f ∨ f = d.canonicalOrGiven s.path

theorem document_origin {f : FilePath} (h : (d.canonicalOrGiven s.path).same f) :
    (s.resolver d r).document d f = .ok s.root :=
  Resolver.document_put_self h

theorem closed_scope (hd : d.WellFormed) (r : Resolver) (s : Schema) :
    (s.resolver d r).Closed d (s.Scope d) where
  canonical h := .inl (Disk.plain_of_canonical hd h)
  document {f g t} hf hg hs ht := by
    rcases hf with hf | rfl
    · rcases hg with hg | rfl
      · have : f = g := hf.symm.trans ((FilePath.same_iff_plain.1 hs).trans hg)
        rwa [← this]
      · have hs' : (d.canonicalOrGiven s.path).same f := by
          rw [FilePath.same_iff_parts] at hs ⊢
          exact hs.symm
        rw [document_origin hs'] at ht
        rw [← ht, document_origin (FilePath.same_self _)]
    · rw [document_origin (FilePath.same_self _)] at ht
      rw [← ht, document_origin hs]

/-- Why a validation may be broken off as cyclic: nodes that come back to a key, a reference that
resolves to no node but a chain of references coming back, or a path longer than the stack. -/
def Schema.Diagnosis (d : Disk) (r : Resolver) (s : Schema) : Prop :=
  (∃ a b, s.Reaches d r a ∧ TransGen (Leads d (s.resolver d r)) a b ∧ b.key = a.key) ∨
  (∃ a raw, s.Reaches d r a ∧ a.value.Refers raw ∧
    Circles d (s.resolver d r) raw a.key.file) ∨
  ∃ path, s.IsPath d r path ∧ path.length = ResolutionStack.defaultDepth + 1

/-- Why a validation may be broken off with an error: the above, or a reference that resolves to no
node. -/
def Schema.Failure (d : Disk) (r : Resolver) (s : Schema) : LoadError → Prop
  | .file _ => False
  | .cyclic _ => s.Diagnosis d r
  | .unresolved _ _ _ => ∃ a raw, s.Reaches d r a ∧ a.value.Refers raw ∧
      ∀ b, ((s.resolver d r).resolveIn d raw a.key.file).1 ≠ .ok b

/-- A walk along a path with nodes done. What it has seen of the nodes on the path is clean just in
case `seen` holds. -/
structure Along (g : Tree → List Violation) (d : Disk) (r : Resolver) (s : Schema)
    (path done : List Target) (seen : Prop) (w : Walk) : Prop where
  view : (s.resolver d r).Agrees d (s.Scope d) w.resolver
  files : ∀ k ∈ w.stack.keys, s.Scope d k.file
  keys : w.stack.keys.map ResolutionKey.plain = path.map Target.key
  depth : w.stack.maxDepth = ResolutionStack.defaultDepth
  checked : w.checked.map ResolutionKey.plain = done.map Target.key
  settled : Settled d (s.resolver d r) done
  reached : ∀ a ∈ done, s.Reaches d r a
  verdict : w.violations = [] ↔ (∀ a ∈ done, a.value.Clean g) ∧ seen

/-- What should come of a part of the walk in the tree of `a`: if it comes to its end, the
references `raws` lead to nodes done, and what it walks through is clean just in case `clean`
holds. -/
def Served (g : Tree → List Violation) (d : Disk) (r : Resolver) (s : Schema) (path : List Target)
    (a : Target) (raws : String → Prop) (clean : Prop) (done : List Target) (seen : Prop) :
    Walk.Outcome → Prop
  | (.ok (), w) => ∃ done', done ⊆ done' ∧ Along g d r s path done' (seen ∧ clean) w ∧
      ∀ raw, raws raw → ∃ b ∈ done', ((s.resolver d r).resolveIn d raw a.key.file).1 = .ok b
  | (.error e, _) => s.Failure d r e

def Serves (g : Tree → List Violation) (d : Disk) (r : Resolver) (s : Schema) (path : List Target)
    (a : Target) (raws : String → Prop) (clean : Prop) (act : Walk → Walk.Outcome) : Prop :=
  ∀ ⦃w done seen⦄, Along g d r s path done seen w →
    Served g d r s path a raws clean done seen (act w)

variable {path : List Target} {a : Target} {raws raws' : String → Prop} {clean clean' : Prop}

theorem Served.imp {done : List Target} {seen seen' : Prop} {out : Walk.Outcome}
    (h : Served g d r s path a raws clean done seen out) (hr : ∀ raw, raws' raw → raws raw)
    (hc : seen ∧ clean ↔ seen' ∧ clean') : Served g d r s path a raws' clean' done seen' out := by
  rcases out with ⟨e | _, w⟩
  · exact h
  · obtain ⟨done', hsub, hw, hraws⟩ := h
    rw [hc] at hw
    exact ⟨done', hsub, hw, fun raw hraw => hraws raw (hr raw hraw)⟩

theorem Along.report {done : List Target} {seen : Prop} {w : Walk}
    (hw : Along g d r s path done seen w) (base : TreePath) (vs : List Violation) :
    Along g d r s path done (seen ∧ vs = []) (w.report base vs) :=
  { hw with
    verdict := by
      simp only [Walk.report, List.append_eq_nil_iff, List.map_eq_nil_iff, hw.verdict, and_assoc] }

namespace Serves

variable {act : Walk → Walk.Outcome}

theorem imp (h : Serves g d r s path a raws clean act) (hr : ∀ raw, raws' raw → raws raw)
    (hc : clean ↔ clean') : Serves g d r s path a raws' clean' act :=
  fun _ _ _ hw => (h hw).imp hr (and_congr_right' hc)

theorem report (base : TreePath) (vs : List Violation)
    (h : Serves g d r s path a raws clean act) :
    Serves g d r s path a raws (vs = [] ∧ clean) fun w => act (w.report base vs) :=
  fun _ _ _ hw => (h (hw.report base vs)).imp (fun _ => id) and_assoc

theorem pass : Serves g d r s path a (fun _ => False) True fun w => (.ok (), w) :=
  fun _ _ _ hw => ⟨_, List.Subset.refl _, by simpa using hw, by simp⟩

theorem inTurn {α : Type} {act : α → Walk → Walk.Outcome} {raws : α → String → Prop}
    {clean : α → Prop} (xs : List α)
    (h : ∀ x ∈ xs, Serves g d r s path a (raws x) (clean x) (act x)) :
    Serves g d r s path a (fun raw => ∃ x ∈ xs, raws x raw) (∀ x ∈ xs, clean x)
      (Walk.inTurn act xs) := by
  induction xs with
  | nil => exact pass.imp (by simp) (by simp)
  | cons x xs ih =>
    intro w done seen hw
    have hx := h x List.mem_cons_self hw
    rw [Walk.inTurn]
    rcases he : act x w with ⟨e | _, w₁⟩ <;> rw [he] at hx
    · exact hx
    · obtain ⟨done₁, hsub₁, hw₁, hraws₁⟩ := hx
      have hxs := ih (fun y hy => h y (List.mem_cons_of_mem _ hy)) hw₁
      simp only
      rcases he' : Walk.inTurn act xs w₁ with ⟨e | _, w₂⟩ <;> rw [he'] at hxs
      · exact hxs
      · obtain ⟨done₂, hsub₂, hw₂, hraws₂⟩ := hxs
        rw [and_assoc, ← List.forall_mem_cons] at hw₂
        refine ⟨done₂, fun b hb => hsub₂ (hsub₁ hb), hw₂, ?_⟩
        rintro raw ⟨y, hy, hraw⟩
        rcases List.mem_cons.1 hy with rfl | hy
        · obtain ⟨b, hb, hl⟩ := hraws₁ raw hraw
          exact ⟨b, hsub₂ hb, hl⟩
        · exact hraws₂ raw ⟨y, hy, hraw⟩

/-- Walking through the schemas of a tree follows the references in it. -/
theorem through {down : String → TreePath → Walk → Walk.Outcome}
    (hdown : ∀ raw base, a.value.Refers raw →
      Serves g d r s path a (· = raw) True (down raw base))
    (t : Tree) (base : TreePath) (ht : a.value.Holds t) :
    Serves g d r s path a t.Refers t.AllDeclared (Walk.through down t base) := by
  induction t, base using Walk.through_induct with
  | scalar t base hm =>
    rw [Walk.through_scalar hm]
    exact pass.imp (fun raw h => Tree.not_refers hm h)
      (iff_of_true trivial (Tree.allDeclared_of_scalar hm))
  | reference es base raw hr =>
    rw [Walk.through_reference hr]
    exact (hdown raw base ⟨_, ht, hr⟩).imp (fun raw' h => (Tree.refers_of_reference? hr).1 h)
      (iff_of_true trivial (Tree.allDeclared_of_reference? hr))
  | inside es base hr ih =>
    rw [Walk.through_inside hr]
    have inside : ∀ p ∈ (Position.all es).attach, Serves g d r s path a p.1.2.Refers
        p.1.2.AllDeclared (Walk.through down p.1.2 (base ++ p.1.1)) := by
      intro p _
      have hp : Inside es p.1.2 := Position.exists_mem_all.1 ⟨p.1, p.2, rfl⟩
      exact ih p.1 p.2 (ht.trans (.inside hr hp (.here _)))
    refine (report base _ (inTurn _ inside)).imp ?_ ?_
    · intro raw hraw
      obtain ⟨u, hu, hraw⟩ := (Tree.refers_of_inside hr).1 hraw
      obtain ⟨p, hp, rfl⟩ := Position.exists_mem_all.2 hu
      exact ⟨⟨p, hp⟩, List.mem_attach _ _, hraw⟩
    · rw [Tree.allDeclared_of_inside hr, undeclared_eq_nil]
      refine and_congr_right' ⟨fun h u hu => ?_, fun h p _ => ?_⟩
      · obtain ⟨p, hp, rfl⟩ := Position.exists_mem_all.2 hu
        exact h ⟨p, hp⟩ (List.mem_attach _ _)
      · exact h _ (Position.exists_mem_all.1 ⟨p.1, p.2, rfl⟩)

theorem check {down : String → TreePath → Walk → Walk.Outcome}
    (hdown : ∀ raw base, a.value.Refers raw →
      Serves g d r s path a (· = raw) True (down raw base)) (base : TreePath) :
    Serves g d r s path a a.value.Refers (a.value.Clean g) (Walk.check g down a.value base) :=
  report base _ (through hdown a.value base (.here _))

end Serves

namespace Along

variable {path done : List Target} {seen : Prop} {w : Walk} {a b : Target} {raw : String}

theorem currentFile (hw : Along g d r s path done seen w) (ha : path.getLast? = some a) :
    s.Scope d w.stack.currentFile ∧ w.stack.currentFile.plain = a.key.file := by
  have hlast : (w.stack.keys.map ResolutionKey.plain).getLast? = some a.key := by
    rw [hw.keys, List.getLast?_map, ha]
    rfl
  rw [List.getLast?_map] at hlast
  obtain ⟨k, hk, he⟩ := Option.map_eq_some_iff.1 hlast
  have : w.stack.currentFile = k.file := by rw [ResolutionStack.currentFile, hk]
  rw [this, ← he]
  exact ⟨hw.files k (List.mem_of_getLast? hk), rfl⟩

theorem follows (hd : d.WellFormed) (hw : Along g d r s path done seen w)
    (ha : path.getLast? = some a) (raw : String) :
    Resolver.Follows (s.resolver d r).idBase d ((s.resolver d r).document d) raw
      w.stack.currentFile [] (w.resolver.resolve d raw w.stack).1 :=
  Resolver.resolveIn_follows (closed_scope hd r s) hw.view (hw.currentFile ha).1 raw

/-- The walk resolves references as the graph has it. -/
theorem resolve_plain (hd : d.WellFormed) (hw : Along g d r s path done seen w)
    (hp : s.IsPath d r path) (ha : path.getLast? = some a) {target : Target}
    (h : (w.resolver.resolve d raw w.stack).1 = .ok target) :
    ((s.resolver d r).resolveIn d raw a.key.file).1 = .ok target.plain := by
  obtain ⟨hscope, hplain⟩ := hw.currentFile ha
  have hap : a.IsPlain := (hp.reaches (List.mem_of_getLast? ha)).isPlain hd
  have hs : a.key.file.plain = w.stack.currentFile.plain := hap.trans hplain.symm
  obtain ⟨b, hb, he⟩ := ((hw.follows hd ha raw).respell (closed_scope hd r s) hscope (.inl hap) hs
    rfl).1 target h
  have hbp : b.plain = b := congrArg (fun f => (⟨⟨f, b.key.pointer⟩, b.value⟩ : Target))
    (hb.file_mem ((s.resolver d r).closed_plain hd) hap)
  rw [← he, hbp]
  exact (resolveIn_eq_iff_follows hd hap).2 hb

/-- Where it meets an error, the graph has a failure. -/
theorem failure_of_resolve (hd : d.WellFormed) (hw : Along g d r s path done seen w)
    (hp : s.IsPath d r path) (ha : path.getLast? = some a) (hraw : a.value.Refers raw)
    {e : LoadError} (h : (w.resolver.resolve d raw w.stack).1 = .error e) :
    s.Failure d r e := by
  have hreach := hp.reaches (List.mem_of_getLast? ha)
  obtain ⟨hscope, hplain⟩ := hw.currentFile ha
  have hap : a.IsPlain := hreach.isPlain hd
  have hs : a.key.file.plain = w.stack.currentFile.plain := hap.trans hplain.symm
  have hf := hw.follows hd ha raw
  rw [h] at hf
  cases e with
  | file e => cases hf.isReference
  | cyclic chain =>
    obtain ⟨chain', hc⟩ := (hf.respell (closed_scope hd r s) hscope (.inl hap) hs rfl).2 chain rfl
    have hc := circles_of_cyclic hd hap ((resolveIn_eq_iff_follows hd hap).2 hc)
    exact .inr (.inl ⟨a, raw, hreach, hraw, hc⟩)
  | unresolved raw' source reason =>
    refine ⟨a, raw, hreach, hraw, fun b hb => ?_⟩
    have hb := (resolveIn_eq_iff_follows hd hap).1 hb
    obtain ⟨b', hb', -⟩ :=
      (hb.respell (closed_scope hd r s) (.inl hap) hscope hs.symm rfl).1 b rfl
    cases hf.unique hb'

theorem scope_of_resolve (hd : d.WellFormed) (hw : Along g d r s path done seen w)
    (ha : path.getLast? = some a) {target : Target}
    (h : (w.resolver.resolve d raw w.stack).1 = .ok target) : s.Scope d target.key.file := by
  have hf := hw.follows hd ha raw
  rw [h] at hf
  exact hf.file_mem (closed_scope hd r s) (hw.currentFile ha).1

theorem resolved (hd : d.WellFormed) (hw : Along g d r s path done seen w)
    (ha : path.getLast? = some a) (raw : String) :
    Along g d r s path done seen
      { w with resolver := (w.resolver.resolve d raw w.stack).2 } :=
  { hw with
    view := Resolver.agrees_resolveIn (closed_scope hd r s) hw.view (hw.currentFile ha).1 raw }

theorem mem_of_checked (hw : Along g d r s path done seen w) {k : ResolutionKey}
    (h : w.checked.any (·.same k)) : ∃ b ∈ done, b.key = k.plain := by
  obtain ⟨l, hl, hs⟩ := List.any_eq_true.1 h
  have hm : l.plain ∈ done.map Target.key := hw.checked ▸ List.mem_map_of_mem hl
  rw [ResolutionKey.same_iff_plain.1 hs] at hm
  obtain ⟨b, hb, he⟩ := List.mem_map.1 hm
  exact ⟨b, hb, he⟩

theorem on_stack_iff (hw : Along g d r s path done seen w) {k : ResolutionKey} :
    w.stack.keys.any (·.same k) ↔ k.plain ∈ path.map Target.key := by
  rw [← hw.keys, List.any_eq_true, List.mem_map]
  simp only [ResolutionKey.same_iff_plain]

theorem length_keys (hw : Along g d r s path done seen w) :
    w.stack.keys.length = path.length := by
  have := congrArg List.length hw.keys
  rwa [List.length_map, List.length_map] at this

theorem push_error (hw : Along g d r s path done seen w) {k : ResolutionKey} {e : LoadError}
    (h : w.stack.push k = .error e) : (∃ chain, e = .cyclic chain) ∧
      (k.plain ∈ path.map Target.key ∨ ResolutionStack.defaultDepth ≤ path.length) := by
  obtain ⟨hc, rfl⟩ := ResolutionStack.push_eq_error.1 h
  rw [hw.on_stack_iff, hw.depth, hw.length_keys] at hc
  exact ⟨⟨_, rfl⟩, hc⟩

theorem push_ok (hw : Along g d r s path done seen w) {k : ResolutionKey} {stack : ResolutionStack}
    (h : w.stack.push k = .ok stack) : k.plain ∉ path.map Target.key ∧
      path.length < ResolutionStack.defaultDepth ∧
      stack = ⟨w.stack.keys ++ [k], w.stack.maxDepth⟩ := by
  obtain ⟨hk, hlen, rfl⟩ := ResolutionStack.push_eq_ok h
  rw [hw.on_stack_iff] at hk
  rw [hw.depth, hw.length_keys] at hlen
  exact ⟨hk, hlen, rfl⟩

/-- Entering a node. -/
theorem enter (hw : Along g d r s path done seen w) {target : Target}
    (hs : s.Scope d target.key.file) : Along g d r s (path ++ [target.plain]) done seen
      { w with stack := ⟨w.stack.keys ++ [target.key], w.stack.maxDepth⟩ } :=
  { hw with
    files := by
      intro k hk
      rcases List.mem_append.1 hk with hk | hk
      · exact hw.files k hk
      · rw [List.mem_singleton.1 hk]
        exact hs
    keys := by
      rw [List.map_append, List.map_append, hw.keys]
      rfl }

theorem pop_eq (hw : Along g d r s (path ++ [b]) done seen w) (hn : path ≠ []) :
    w.stack.pop.2 = { w.stack with keys := w.stack.keys.dropLast } := by
  have := hw.length_keys
  have := List.length_pos_iff.2 hn
  rw [List.length_append, List.length_singleton] at *
  exact congrArg Prod.snd (ResolutionStack.pop_of_lt (by omega))

/-- Leaving a node all of whose references lead to nodes done. -/
theorem leave {k : ResolutionKey}
    (hw : Along g d r s (path ++ [b]) done (seen ∧ b.value.Clean g) w) (hn : path ≠ [])
    (hk : k.plain = b.key) (hb : s.Reaches d r b)
    (hr : ∀ raw, b.value.Refers raw →
      ∃ c ∈ done, ((s.resolver d r).resolveIn d raw b.key.file).1 = .ok c) :
    Along g d r s path (done ++ [b]) seen
      { w with stack := w.stack.pop.2, checked := w.checked ++ [k] } where
  view := hw.view
  files k hk := by
    rw [hw.pop_eq hn] at hk
    exact hw.files k (List.dropLast_subset _ hk)
  keys := by
    rw [hw.pop_eq hn, List.map_dropLast, hw.keys, List.map_append, List.map_singleton,
      List.dropLast_concat]
  depth := by
    rw [hw.pop_eq hn]
    exact hw.depth
  checked := by
    rw [List.map_append, List.map_append, hw.checked]
    simp [hk]
  settled := hw.settled.concat hr
  reached := by
    intro a ha
    rcases List.mem_append.1 ha with ha | ha
    · exact hw.reached a ha
    · rw [List.mem_singleton.1 ha]
      exact hb
  verdict := by
    rw [hw.verdict, List.forall_mem_append, List.forall_mem_singleton]
    tauto

end Along

/-- A node that the stack refuses explains why. -/
theorem Schema.IsPath.diagnosis {path : List Target} {a b : Target} (hp : s.IsPath d r path)
    (ha : path.getLast? = some a) (hl : Leads d (s.resolver d r) a b)
    (h : b.key ∈ path.map Target.key ∨ ResolutionStack.defaultDepth ≤ path.length)
    (hlen : path.length ≤ ResolutionStack.defaultDepth) : s.Diagnosis d r := by
  by_cases hb : b.key ∈ path.map Target.key
  · obtain ⟨c, hc, he⟩ := List.mem_map.1 hb
    exact .inl ⟨c, b, hp.reaches hc, .tail' (reaches_of_chain hp.leads ha hc) hl, he.symm⟩
  · have := h.resolve_left hb
    refine .inr (.inr ⟨path ++ [b], hp.concat ha hl hb, ?_⟩)
    rw [List.length_append, List.length_singleton]
    omega

theorem Along.eq_of_key (hd : d.WellFormed) {path done : List Target} {seen : Prop} {w : Walk}
    {a b c : Target} (hw : Along g d r s path done seen w) (hp : s.IsPath d r path)
    (ha : a ∈ path) (hl : Leads d (s.resolver d r) a b) (hc : c ∈ done) (hk : c.key = b.key) :
    c = b := by
  have hb : s.Reaches d r b := (hp.reaches ha).tail hl
  exact (hw.reached c hc).eq_of_key hd hb hk

theorem Serves.descend_of (hd : d.WellFormed) {room : Nat} {path : List Target} {a : Target}
    {raw : String} (base : TreePath) (hp : s.IsPath d r path) (ha : path.getLast? = some a)
    (hraw : a.value.Refers raw) (hroom : room + path.length = ResolutionStack.defaultDepth)
    (hin : ∀ room' b, room = room' + 1 → s.IsPath d r (path ++ [b]) → ∀ base,
      Serves g d r s (path ++ [b]) b b.value.Refers (b.value.Clean g)
        (Walk.check g (Walk.descend g d room') b.value base)) :
    Serves g d r s path a (· = raw) True (Walk.descend g d room raw base) := by
  have hmem := List.mem_of_getLast? ha
  intro w done seen hw
  rcases hres : w.resolver.resolve d raw w.stack with ⟨o, r'⟩
  have hw₁ := hw.resolved hd ha raw
  rw [hres] at hw₁
  cases o with
  | error e =>
    rw [Walk.descend_unresolved hres]
    exact hw.failure_of_resolve hd hp ha hraw (congrArg Prod.fst hres)
  | ok target =>
    have hb := hw.resolve_plain hd hp ha (congrArg Prod.fst hres)
    have hscope := hw.scope_of_resolve hd ha (congrArg Prod.fst hres)
    have hl : Leads d (s.resolver d r) a target.plain := ⟨raw, hraw, hb⟩
    by_cases hc : w.checked.any (·.same target.key)
    -- a target that is checked is a node done, whatever path has led to it before
    · obtain ⟨c, hcd, hk⟩ := hw.mem_of_checked hc
      rw [hw.eq_of_key hd hp hmem hl hcd hk] at hcd
      rw [Walk.descend_checked hres hc]
      refine ⟨done, List.Subset.refl _, by simpa using hw₁, ?_⟩
      rintro _ rfl
      exact ⟨_, hcd, hb⟩
    · cases hpush : w.stack.push target.key with
      | error e =>
        rw [Walk.descend_refused hres hc hpush]
        obtain ⟨⟨chain, rfl⟩, hrefused⟩ := hw.push_error hpush
        exact hp.diagnosis ha hl hrefused (by omega)
      | ok stack =>
        obtain ⟨hk, hlen, rfl⟩ := hw.push_ok hpush
        cases room with
        | zero => omega
        | succ room =>
          have hcheck : Served g d r s (path ++ [target.plain]) target.plain _ _ done seen
              (Walk.check g (Walk.descend g d room) target.value (base ++ [.key "$ref"])
                ⟨r', ⟨w.stack.keys ++ [target.key], w.stack.maxDepth⟩, w.checked, w.violations⟩) :=
            hin room target.plain rfl (hp.concat ha hl hk) _ (hw₁.enter hscope)
          rw [Walk.descend_entered hres hc hpush]
          generalize Walk.check g _ _ _ _ = out at hcheck
          rcases out with ⟨e | _, w₂⟩
          · exact hcheck
          -- all that the target refers to is done, so that it may be added to the nodes done
          · obtain ⟨done', hsub, hw₂, hraws⟩ := hcheck
            have hleave := hw₂.leave (List.ne_nil_of_mem hmem) rfl ((hp.reaches hmem).tail hl) hraws
            refine ⟨done' ++ [target.plain], fun c hc => List.mem_append_left _ (hsub hc),
              by simpa using hleave, ?_⟩
            rintro _ rfl
            exact ⟨_, List.mem_append_right _ (List.mem_singleton.2 rfl), hb⟩

/-- Following a reference keeps the invariant: its target is done in the end. -/
theorem Serves.descend (hd : d.WellFormed) (room : Nat) {path : List Target} {a : Target}
    {raw : String} (base : TreePath) (hp : s.IsPath d r path) (ha : path.getLast? = some a)
    (hraw : a.value.Refers raw) (hroom : room + path.length = ResolutionStack.defaultDepth) :
    Serves g d r s path a (· = raw) True (Walk.descend g d room raw base) := by
  induction room generalizing path a raw base with
  | zero =>
    refine .descend_of hd base hp ha hraw hroom fun room' b h => ?_
    omega
  | succ room ih =>
    refine .descend_of hd base hp ha hraw hroom fun room' b h hpath base' => .check ?_ base'
    intro raw' base'' hraw'
    cases h
    refine ih base'' hpath List.getLast?_concat hraw' ?_
    rw [List.length_append, List.length_singleton]
    omega

end Schemata
