import Schemata.Proofs.Validation.Reports
import Schemata.Proofs.Validation.Tour
import Schemata.Proofs.Validation.Verdict

/-!
# Where violations are anchored

A walk that comes to its end has checked the document and, at the first stops of its tour, each
target once. What it reports are their violations seen from these places, neither more nor less.
-/

namespace Schemata

open Relation

variable {g : Tree → List Violation} {d : Disk} {r : Resolver} {s : Schema}

namespace Walk

/-- The keys of the targets that are done, spelled plainly. -/
def doneKeys (w : Walk) : List ResolutionKey := w.checked.map ResolutionKey.plain

/-- From one state of the walk to the other, violations are added as well as those of the first
stops of a tour. -/
structure Adds (g : Tree → List Violation) (own : List Violation) (tour : List Stop)
    (w w' : Walk) : Prop where
  violations : w'.violations.Perm (w.violations ++ own ++
    (firsts w.doneKeys tour).flatMap fun x => x.2.value.faults g x.1)
  doneKeys : w'.doneKeys.Perm (w.doneKeys ++ keysOf (firsts w.doneKeys tour))

namespace Adds

variable {own own' : List Violation} {tour tour' : List Stop} {w w' w'' : Walk}

theorem refl (g : Tree → List Violation) (w : Walk) : Adds g [] [] w w :=
  ⟨by simp [firsts], by simp [firsts, keysOf]⟩

theorem trans (h : Adds g own tour w w') (h' : Adds g own' tour' w' w'') :
    Adds g (own ++ own') (tour ++ tour') w w'' := by
  have hseen : firsts w'.doneKeys tour' =
      firsts (w.doneKeys ++ keysOf (firsts w.doneKeys tour)) tour' :=
    firsts_congr fun k => h.doneKeys.mem_iff
  obtain ⟨hv, hk⟩ := h
  obtain ⟨hv', hk'⟩ := h'
  rw [hseen] at hv' hk'
  constructor
  · rw [firsts_append, List.flatMap_append]
    simp only [List.perm_iff_count, List.count_append] at *
    intro v
    have := hv v
    have := hv' v
    omega
  · rw [firsts_append]
    simp only [keysOf, List.map_append, List.perm_iff_count, List.count_append] at *
    intro k
    have := hk k
    have := hk' k
    omega

theorem report (g : Tree → List Violation) (w : Walk) (base : TreePath) (vs : List Violation) :
    Adds g (vs.map (·.under base)) [] w (w.report base vs) :=
  ⟨by simp [Walk.report, firsts], by simp [Walk.report, Walk.doneKeys, firsts, keysOf]⟩

/-- A target done before adds nothing. -/
theorem again (h : ∀ x ∈ tour, x.2.key ∈ w.doneKeys) (r' : Resolver) :
    Adds g [] tour w { w with resolver := r' } := by
  have hn : firsts w.doneKeys tour = [] := firsts_eq_nil h
  refine ⟨by simp [hn], ?_⟩
  rw [hn]
  simp [keysOf, Walk.doneKeys]

/-- A target that is checked for the first time adds its violations and its key. -/
theorem target {b : Target} {p : TreePath} {inner : List Stop} {k : ResolutionKey}
    (h : Adds g (b.value.faults g p) inner w w') (hw : b.key ∉ w.doneKeys)
    (hi : b.key ∉ keysOf inner) (hk : k.plain = b.key) (stack : ResolutionStack) :
    Adds g [] ((p, b) :: inner) w { w' with stack := stack, checked := w'.checked ++ [k] } := by
  have hf : firsts w.doneKeys ((p, b) :: inner) = (p, b) :: firsts w.doneKeys inner := by
    rw [firsts, if_neg hw, firsts_cons hi]
  obtain ⟨hv, hd⟩ := h
  constructor
  · rw [hf]
    simpa using hv
  · have hkeys : Walk.doneKeys { w' with stack := stack, checked := w'.checked ++ [k] } =
        w'.doneKeys ++ [b.key] := by
      simp [Walk.doneKeys, hk]
    rw [hf, hkeys]
    refine (hd.append_right [b.key]).trans ?_
    simp only [keysOf, List.map_cons, List.append_assoc]
    exact (List.perm_append_singleton _ _).append_left _

end Adds

end Walk

theorem Along.mem_doneKeys {path done : List Target} {seen : Prop} {w : Walk} {k : ResolutionKey}
    (hw : Along g d r s path done seen w) : k ∈ w.doneKeys ↔ ∃ a ∈ done, a.key = k := by
  rw [Walk.doneKeys, hw.checked, List.mem_map]

/-- The part of the walk in the tree of `a` that follows the references at some sites adds what it
should, if it comes to its end. -/
def Tracks (g : Tree → List Violation) (d : Disk) (r : Resolver) (s : Schema) (path : List Target)
    (a : Target) (own : List Violation) (sites : List (TreePath × String))
    (act : Walk → Walk.Outcome) : Prop :=
  ∀ ⦃w done seen⦄, Along g d r s path done seen w → (act w).1 = .ok () →
    ∀ tour, Tour d (s.resolver d r) a.key.file sites tour → Walk.Adds g own tour w (act w).2

namespace Tracks

variable {path : List Target} {a : Target} {own : List Violation}
  {sites : List (TreePath × String)} {act : Walk → Walk.Outcome}

theorem pass : Tracks g d r s path a [] [] fun w => (.ok (), w) := by
  intro w done seen _ _ tour ht
  cases ht
  exact .refl g w

theorem report (base : TreePath) (vs : List Violation)
    (h : Tracks g d r s path a own sites act) :
    Tracks g d r s path a (vs.map (·.under base) ++ own) sites fun w => act (w.report base vs) :=
  fun w _ _ hw hok tour ht =>
    (Walk.Adds.report g w base vs).trans (h (hw.report base vs) hok tour ht)

theorem inTurn {α : Type} {act : α → Walk → Walk.Outcome} {raws : α → String → Prop}
    {clean : α → Prop} {own : α → List Violation} {sites : α → List (TreePath × String)}
    (xs : List α) (hs : ∀ x ∈ xs, Serves g d r s path a (raws x) (clean x) (act x))
    (h : ∀ x ∈ xs, Tracks g d r s path a (own x) (sites x) (act x)) :
    Tracks g d r s path a (xs.flatMap own) (xs.flatMap sites) (Walk.inTurn act xs) := by
  induction xs with
  | nil => exact pass
  | cons x xs ih =>
    intro w done seen hw hok tour ht
    rw [List.flatMap_cons] at ht ⊢
    obtain ⟨first, rest, rfl, hfirst, hrest⟩ := ht.split
    have hserved := hs x List.mem_cons_self hw
    have hx := h x List.mem_cons_self hw
    rw [Walk.inTurn] at hok ⊢
    rcases he : act x w with ⟨e | _, w'⟩ <;> rw [he] at hok hserved hx
    · cases hok
    · obtain ⟨done', -, hw', -⟩ := hserved
      have hxs := ih (fun y hy => hs y (List.mem_cons_of_mem _ hy))
        (fun y hy => h y (List.mem_cons_of_mem _ hy)) hw' hok rest hrest
      exact (hx rfl first hfirst).trans hxs

theorem through {down : String → TreePath → Walk → Walk.Outcome}
    (hs : ∀ raw base, a.value.Refers raw →
      Serves g d r s path a (· = raw) True (down raw base))
    (hdown : ∀ raw base, a.value.Refers raw →
      Tracks g d r s path a [] [(base, raw)] (down raw base))
    (t : Tree) (base : TreePath) (ht : a.value.Holds t) :
    Tracks g d r s path a (t.undeclaredWithin base) (t.sites base) (Walk.through down t base) := by
  induction t, base using Walk.through_induct with
  | scalar t base hm =>
    rw [Walk.through_scalar hm, Tree.undeclaredWithin_scalar hm, Tree.sites_scalar hm]
    exact pass
  | reference es base raw hr =>
    rw [Walk.through_reference hr, Tree.undeclaredWithin_reference hr, Tree.sites_reference hr]
    exact hdown raw base ⟨_, ht, hr⟩
  | inside es base hr ih =>
    rw [Walk.through_inside hr, Tree.undeclaredWithin_inside hr, Tree.sites_inside hr]
    have holds (p : {p // p ∈ Position.all es}) : a.value.Holds p.1.2 :=
      ht.trans (.inside hr (Position.exists_mem_all.1 ⟨p.1, p.2, rfl⟩) (.here _))
    exact report base _ (inTurn _ (fun p _ => Serves.through hs p.1.2 _ (holds p))
      fun p _ => ih p.1 p.2 (holds p))

theorem check {down : String → TreePath → Walk → Walk.Outcome}
    (hs : ∀ raw base, a.value.Refers raw →
      Serves g d r s path a (· = raw) True (down raw base))
    (hdown : ∀ raw base, a.value.Refers raw →
      Tracks g d r s path a [] [(base, raw)] (down raw base)) (base : TreePath) :
    Tracks g d r s path a (a.value.faults g base) (a.value.sites base)
      (Walk.check g down a.value base) :=
  report base _ (through hs hdown a.value base (.here _))

/-- Following a reference adds what checking its target adds. -/
theorem descend_of (hd : d.WellFormed) {room : Nat} {path : List Target} {a : Target}
    {raw : String} (base : TreePath) (hp : s.IsPath d r path) (ha : path.getLast? = some a)
    (hraw : a.value.Refers raw) (hroom : room + path.length = ResolutionStack.defaultDepth)
    (hin : ∀ room' b, room = room' + 1 → s.IsPath d r (path ++ [b]) → ∀ base,
      Tracks g d r s (path ++ [b]) b (b.value.faults g base) (b.value.sites base)
        (Walk.check g (Walk.descend g d room') b.value base)) :
    Tracks g d r s path a [] [(base, raw)] (Walk.descend g d room raw base) := by
  have hmem := List.mem_of_getLast? ha
  intro w done seen hw hok tour ht
  cases ht with
  | @cons _ _ _ _ b inner _ hb hi hrest =>
    cases hrest
    rw [List.append_nil]
    have hreach : s.Reaches d r b := (hp.reaches hmem).tail ⟨raw, hraw, hb⟩
    have hinner {x : Stop} (hx : x ∈ inner) : TransGen (Leads d (s.resolver d r)) b x.2 :=
      hi.leads rfl (fun site hs => Tree.exists_mem_sites.1 ⟨site.1, hs⟩) hx
    -- the target is done in the end, so that it does not come back to itself
    have hnew : b.key ∉ keysOf inner := by
      have hserved := Serves.descend (g := g) hd room base hp ha hraw hroom hw
      rcases hout : Walk.descend g d room raw base w with ⟨e | _, w'⟩ <;>
        rw [hout] at hserved hok
      · cases hok
      · obtain ⟨done', -, hw', hraws⟩ := hserved
        obtain ⟨c, hc, hcb⟩ := hraws raw rfl
        rw [hb] at hcb
        cases hcb
        intro hk
        obtain ⟨x, hx, he⟩ := List.mem_map.1 hk
        have hxr : s.Reaches d r x.2 := hreach.trans (hinner hx).to_reflTransGen
        exact hw'.settled.acyclic hc (hinner hx) (hxr.eq_of_key hd hreach he)
    rcases hres : w.resolver.resolve d raw w.stack with ⟨e | target, r'⟩
    · rw [Walk.descend_unresolved hres] at hok
      cases hok
    have hbt : b = target.plain := by
      have := hw.resolve_plain hd hp ha (congrArg Prod.fst hres)
      rw [hb] at this
      exact Except.ok.inj this
    have hkey : target.key.plain = b.key := congrArg Target.key hbt.symm
    have hw₁ := hw.resolved hd ha raw
    rw [hres] at hw₁
    by_cases hc : w.checked.any (·.same target.key)
    · rw [Walk.descend_checked hres hc]
      obtain ⟨c, hcd, hck⟩ := hw.mem_of_checked hc
      have hbd : b ∈ done := hw.eq_of_key hd hp hmem ⟨raw, hraw, hb⟩ hcd (hck.trans hkey) ▸ hcd
      refine .again (fun x hx => hw.mem_doneKeys.2 ?_) r'
      rcases List.mem_cons.1 hx with rfl | hx
      · exact ⟨b, hbd, rfl⟩
      · exact ⟨x.2, hw.settled.mem_of_reaches hbd (hinner hx).to_reflTransGen, rfl⟩
    have hfresh : b.key ∉ w.doneKeys := by
      intro hk
      obtain ⟨k, hkm, he⟩ := List.mem_map.1 hk
      refine hc (List.any_eq_true.2 ⟨k, hkm, ?_⟩)
      exact ResolutionKey.same_iff_plain.2 (he.trans hkey.symm)
    cases hpush : w.stack.push target.key with
    | error e =>
      rw [Walk.descend_refused hres hc hpush] at hok
      cases hok
    | ok stack =>
      obtain ⟨hk, hlen, rfl⟩ := hw.push_ok hpush
      cases room with
      | zero => omega
      | succ room =>
        have hscope := hw.scope_of_resolve hd ha (congrArg Prod.fst hres)
        have hpath := hp.concat ha ⟨raw, hraw, hb⟩ (hkey ▸ hk)
        have hadds := hin room b rfl hpath (base ++ [.key "$ref"]) (hbt ▸ hw₁.enter hscope)
        rw [Walk.descend_entered hres hc hpush] at hok ⊢
        have hvalue : target.value = b.value := by rw [hbt]; rfl
        rw [hvalue] at hok ⊢
        rcases hout : Walk.check g (Walk.descend g d room) b.value (base ++ [.key "$ref"])
            { w with resolver := r', stack := ⟨w.stack.keys ++ [target.key], w.stack.maxDepth⟩ }
          with ⟨e | _, w'⟩ <;> rw [hout] at hok hadds ⊢
        · cases hok
        · obtain ⟨hv, hd⟩ := hadds rfl inner hi
          exact Walk.Adds.target (w := w) ⟨hv, hd⟩ hfresh hnew hkey _

theorem descend (hd : d.WellFormed) (room : Nat) {path : List Target} {a : Target}
    {raw : String} (base : TreePath) (hp : s.IsPath d r path) (ha : path.getLast? = some a)
    (hraw : a.value.Refers raw) (hroom : room + path.length = ResolutionStack.defaultDepth) :
    Tracks g d r s path a [] [(base, raw)] (Walk.descend g d room raw base) := by
  induction room generalizing path a raw base with
  | zero =>
    refine descend_of hd base hp ha hraw hroom fun room' b h => ?_
    omega
  | succ room ih =>
    refine descend_of hd base hp ha hraw hroom fun room' b h hpath base' => ?_
    cases h
    have hlen : room + (path ++ [b]).length = ResolutionStack.defaultDepth := by
      rw [List.length_append, List.length_singleton]
      omega
    have hlast : (path ++ [b]).getLast? = some b := List.getLast?_concat
    exact check (fun raw' base'' h => .descend hd room base'' hpath hlast h hlen)
      (fun raw' base'' h => ih base'' hpath hlast h hlen) base'

end Tracks

/-- What comes of a document whose validation ends: the walk is done once with each target that the
document leads to, and reports for the document and for each first stop of its tour the violations
of the tree, seen from there. -/
structure Schema.Anchored (g : Tree → List Violation) (d : Disk) (r : Resolver) (s : Schema)
    (vs : List Violation) (tour : List Stop) (w : Walk) : Prop where
  run : Walk.run g d r s = (.ok (), w)
  toured : Tour d (s.resolver d r) (s.target d).key.file (s.root.sites []) tour
  only : ∀ tour', Tour d (s.resolver d r) (s.target d).key.file (s.root.sites []) tour' →
    tour' = tour
  once : w.doneKeys.Nodup
  all : ∀ k, k ∈ w.doneKeys ↔
    ∃ a, TransGen (Leads d (s.resolver d r)) (s.target d) a ∧ a.key = k
  stops : w.doneKeys.Perm (keysOf (firsts [] tour))
  first : ∀ x, x ∈ firsts [] tour ↔ tour.find? (·.2.key = x.2.key) = some x
  reported : w.violations.Perm (s.root.faults g [] ++
    (firsts [] tour).flatMap fun x => x.2.value.faults g x.1)
  sorted : vs.Pairwise fun v v' => v.compare v' = .lt
  violations : ∀ v, v ∈ vs ↔
    v ∈ s.root.faults g [] ∨ ∃ x ∈ firsts [] tour, v ∈ x.2.value.faults g x.1

theorem adds_run (hd : d.WellFormed) {w : Walk} (h : Walk.run g d r s = (.ok (), w))
    {tour : List Stop}
    (ht : Tour d (s.resolver d r) (s.target d).key.file (s.root.sites []) tour) :
    Walk.Adds g (s.root.faults g []) tour (Walk.start d r s) w := by
  have hcheck : Tracks g d r s [s.target d] (s.target d) (s.root.faults g []) (s.root.sites [])
      (Walk.check g (Walk.descend g d (Walk.start d r s).stack.room) s.root []) :=
    Tracks.check (a := s.target d)
      (fun _ base hraw => .descend hd _ base (.singleton d r s) rfl hraw rfl)
      (fun _ base hraw => .descend hd _ base (.singleton d r s) rfl hraw rfl) []
  have hrun := hcheck (along_start g d r s) (congrArg Prod.fst h) tour ht
  rwa [show Walk.check g _ s.root [] (Walk.start d r s) = (.ok (), w) from h] at hrun

/-- A validation that comes to its end has checked each target once, where the document first leads
to it, and reports what it found there and in the document. -/
theorem Schema.validate_anchored (hd : d.WellFormed) {vs : List Violation}
    (h : (s.validate g d r).1 = .ok vs) : ∃ tour w, s.Anchored g d r vs tour w := by
  obtain ⟨all, hall, hmem, -, -⟩ := exists_settled hd h
  obtain ⟨tour, ht⟩ := Tour.exists_of_settled hall hmem []
  rcases hrun : Walk.run g d r s with ⟨e | _, w⟩
  · simp [Schema.validate, hrun] at h
  have hvs : vs = Violation.canonical w.violations := by
    simpa [Schema.validate, hrun, eq_comm] using h
  obtain ⟨hv, hk⟩ := adds_run hd hrun ht
  have hv : w.violations.Perm (s.root.faults g [] ++
      (firsts [] tour).flatMap fun x => x.2.value.faults g x.1) := hv
  have hk : w.doneKeys.Perm (keysOf (firsts [] tour)) := hk
  refine ⟨tour, w, hrun, ht, fun tour' ht' => ht'.unique ht, hk.nodup_iff.2 nodup_firsts.1,
    fun k => ?_, hk, fun x => by simp [mem_firsts], hv, ?_, fun v => ?_⟩
  · have hseen : k ∈ [] ∨ k ∈ keysOf (firsts [] tour) ↔ k ∈ [] ∨ k ∈ keysOf tour :=
      mem_seen_or_firsts
    have hkeys : k ∈ keysOf (firsts [] tour) ↔ k ∈ keysOf tour := by simpa using hseen
    rw [hk.mem_iff, hkeys, keysOf, List.mem_map]
    constructor
    · rintro ⟨x, hx, rfl⟩
      exact ⟨x.2, ht.leads rfl (fun site hs => Tree.exists_mem_sites.1 ⟨site.1, hs⟩) hx, rfl⟩
    · rintro ⟨a, ha, rfl⟩
      obtain ⟨x, hx, rfl⟩ := Tour.exists_stop (a := s.target d) ht ha
      exact ⟨x, hx, rfl⟩
  · rw [hvs]
    exact Violation.pairwise_canonical _
  · rw [hvs, Violation.mem_canonical, hv.mem_iff, List.mem_append, List.mem_flatMap]

/-- Two documents that refer to a third one, which requires what it does not declare. -/
def Diamond.disk : Disk :=
  ⟨[(["b.json"], .file (.text "\x7b\"not\":\x7b\"$ref\":\"d.json\"\x7d\x7d")),
    (["c.json"], .file (.text "\x7b\"$ref\":\"./d.json\"\x7d")),
    (["d.json"], .file (.text "\x7b\"required\":[\"x\"]\x7d"))], []⟩

def Diamond.schema : Schema :=
  .ofTree ⟨"/a.json"⟩ ⟨"/"⟩ (.mapping [("anyOf", .list [.mapping [("$ref", .string "b.json")],
    .mapping [("$ref", .string "c.json")]])])

def Diamond.violations : List Violation :=
  [⟨[.key "anyOf", .index 0, .key "$ref", .key "not", .key "$ref", .key "required", .index 0],
    "\"x\" is required but not declared in properties"⟩]

theorem Diamond.anchored : disk.WellFormed ∧
    (schema.validate (fun _ => []) disk .empty).1 = .ok violations ∧
    ∃ tour w, schema.Anchored (fun _ => []) disk .empty violations tour w := by
  have hd : disk.WellFormed := by decide +kernel
  have h : (schema.validate (fun _ => []) disk .empty).1 = .ok violations := by decide +kernel
  exact ⟨hd, h, Schema.validate_anchored hd h⟩

end Schemata
