import Schemata.Proofs.Validation.Independence

/-!
# What a resolver keeps in the course of time

Whatever is asked of a resolver, it keeps documents under the files that hold them, and neither
drops nor changes one. So it answers like a resolver that has kept nothing, as long as the file that
a reference stands in can be opened if it can be opened under any spelling of its path.
-/

namespace Schemata

namespace Resolver

/-- Nothing that was kept is dropped or changed, and what is new is what its file holds. -/
structure Extends (d : Disk) (r r' : Resolver) : Prop where
  idBase : r'.idBase = r.idBase
  cache : ∃ new, r'.cache = r.cache ++ new ∧ ∀ e ∈ new, Tree.load d e.1 = .ok e.2

/-- What is kept is what its file holds. -/
def Faithful (d : Disk) (r : Resolver) : Prop := ∀ e ∈ r.cache, Tree.load d e.1 = .ok e.2

variable {d : Disk} {r r' : Resolver} {f : FilePath} {t : Tree}

theorem Extends.refl (d : Disk) (r : Resolver) : r.Extends d r := ⟨rfl, [], by simp, by simp⟩

theorem Extends.trans {r'' : Resolver} (h : r.Extends d r') (h' : r'.Extends d r'') :
    r.Extends d r'' := by
  obtain ⟨hb, new, hc, hn⟩ := h
  obtain ⟨hb', new', hc', hn'⟩ := h'
  refine ⟨hb'.trans hb, new ++ new', by rw [hc', hc, List.append_assoc], fun e he => ?_⟩
  exact (List.mem_append.1 he).elim (hn e) (hn' e)

theorem Extends.faithful (h : r.Extends d r') (hr : r.Faithful d) : r'.Faithful d := by
  obtain ⟨-, new, hc, hn⟩ := h
  intro e he
  rw [hc] at he
  exact (List.mem_append.1 he).elim (hr e) (hn e)

theorem Extends.keep (ht : r.document d f = .ok t) : r.Extends d (r.keep f t) := by
  unfold Resolver.keep
  cases hc : r.cached? f with
  | some u => exact .refl d r
  | none =>
    rw [document, hc] at ht
    have hn : ¬ r.cache.any (·.1.same f) := by
      simpa [cached?, List.find?_eq_none] using hc
    refine ⟨idBase_put r f t, [(f, t)], ?_, fun e he => ?_⟩
    · simp [put, hn]
    · rw [List.mem_singleton.1 he]
      exact ht

theorem extends_follow {r₀ : Resolver} {raw₀ raw : String} {origin₀ origin : FilePath}
    {visited : List ResolutionKey} (h : InReach r₀ d raw₀ origin₀ r raw origin) :
    r.Extends d (follow d r₀ raw₀ origin₀ r raw origin visited h).2 := by
  fun_induction follow d r₀ raw₀ origin₀ r raw origin visited h with
  | case1 | case2 | case6 => exact .refl d _
  | case3 r raw origin visited h key hk hv t ht => exact .keep ht
  | case4 r raw origin visited h key hk hv t ht => exact .keep ht
  | case5 r raw origin visited h key hk hv t ht u hu raw' hr ih => exact (Extends.keep ht).trans ih

/-- Whatever comes of a reference, the documents read on the way are all that is new. -/
theorem extends_resolve (d : Disk) (r : Resolver) (raw : String) (stack : ResolutionStack) :
    r.Extends d (r.resolve d raw stack).2 :=
  extends_follow _

theorem extends_put (hr : r.Faithful d) (ht : Tree.load d f = .ok t) :
    r.Extends d (r.put f t) := by
  refine ⟨idBase_put r f t, ?_⟩
  have kept (e : FilePath × Tree) (he : e ∈ r.cache) (hs : e.1.same f) : t = e.2 := by
    obtain ⟨_, name, text, -, hf, -⟩ := Disk.load_eq_ok.1 ht
    have := Disk.load_eq_of_same hs hf (hr e he)
    rw [ht] at this
    exact Except.ok.inj this
  unfold put
  split
  · refine ⟨[], ?_, by simp⟩
    rw [List.append_nil]
    refine (List.map_congr_left fun e he => ?_).trans r.cache.map_id
    split
    · rename_i hs
      rw [kept e he hs, id]
    · rfl
  · refine ⟨[(f, t)], rfl, fun e he => ?_⟩
    rw [List.mem_singleton.1 he]
    exact ht

end Resolver

/-- A part of the walk drops and changes no document that the resolver keeps. -/
def Walk.Widens (d : Disk) (act : Walk → Walk.Outcome) : Prop :=
  ∀ w : Walk, w.resolver.Extends d (act w).2.resolver

namespace Walk.Widens

variable {g : Tree → List Violation} {d : Disk}

theorem progress (d : Disk) : Walk.Progress d fun w w' => w.resolver.Extends d w'.resolver where
  refl w := .refl d w.resolver
  trans h h' := h.trans h'
  report w _ _ := .refl d w.resolver
  resolved w raw := Resolver.extends_resolve d w.resolver raw w.stack
  moved w _ := .refl d w.resolver
  done w _ := .refl d w.resolver

theorem compositional (d : Disk) : Walk.Compositional (Widens d) := (progress d).compositional

theorem descend (room : Nat) (raw : String) (base : TreePath) :
    Widens d (Walk.descend g d room raw base) :=
  (progress d).descend room raw base

end Walk.Widens

theorem Schema.extends_validate {d : Disk} {r : Resolver} {s : Schema} (hr : r.Faithful d)
    (ht : Tree.load d (d.canonicalOrGiven s.path) = .ok s.root) (g : Tree → List Violation) :
    r.Extends d (s.validate g d r).2 := by
  have hrun : (Walk.start d r s).resolver.Extends d (Walk.run g d r s).2.resolver :=
    (Walk.Widens.compositional d).check (Walk.Widens.descend _) s.root [] (Walk.start d r s)
  refine (Resolver.extends_put hr ht).trans ?_
  unfold Schema.validate
  rcases he : Walk.run g d r s with ⟨e | _, w⟩ <;> rw [he] at hrun <;> exact hrun

inductive Request where
  | resolve (raw : String) (stack : ResolutionStack)
  | insert (path : FilePath) (t : Tree)
  | validate (grammar : Tree → List Violation) (s : Schema)

namespace Request

/-- The resolver after a request. -/
def serve (d : Disk) (r : Resolver) : Request → Resolver
  | resolve raw stack => (r.resolve d raw stack).2
  | insert path t => r.insertDocument d path t
  | validate grammar s => (s.validate grammar d r).2

/-- The document that comes with a request, if any, is the one of its file. -/
def Genuine (d : Disk) : Request → Prop
  | resolve _ _ => True
  | insert path t => Tree.load d (d.canonicalOrGiven path) = .ok t
  | validate _ s => Tree.load d (d.canonicalOrGiven s.path) = .ok s.root

/-- A resolver that has kept nothing before it served some requests. -/
def serveAll (d : Disk) (idBase : Option IdBase) (requests : List Request) : Resolver :=
  requests.foldl (serve d) ⟨[], idBase⟩

variable {d : Disk} {r : Resolver} {idBase : Option IdBase} {requests : List Request}

theorem extends_serve (hr : r.Faithful d) {q : Request} (hq : q.Genuine d) :
    r.Extends d (q.serve d r) := by
  cases q with
  | resolve raw stack => exact Resolver.extends_resolve d r raw stack
  | insert path t => exact Resolver.extends_put hr hq
  | validate g s => exact Schema.extends_validate hr hq g

theorem extends_foldl (hr : r.Faithful d) (hq : ∀ q ∈ requests, q.Genuine d) :
    r.Extends d (requests.foldl (serve d) r) := by
  induction requests generalizing r with
  | nil => exact .refl d r
  | cons q qs ih =>
    have h := extends_serve hr (hq q List.mem_cons_self)
    exact h.trans (ih (h.faithful hr) fun p hp => hq p (List.mem_cons_of_mem q hp))

end Request

/-- A file is found if it is found under any spelling of its path. -/
def Disk.Steady (d : Disk) (f : FilePath) : Prop := ∀ g, f.same g → d.Found g → d.Found f

namespace Resolver

variable {d : Disk} {r : Resolver} {idBase : Option IdBase}

/-- One path has one document among the files that are steady or kept. -/
theorem closed_steady_or_kept (hd : d.WellFormed) (r : Resolver) :
    Closed d (fun f => d.Steady f ∨ (r.cached? f).isSome) r where
  canonical h := by
    obtain ⟨name, item, -, hq, -⟩ := Disk.find_canonical hd h
    exact .inl fun _ _ _ => ⟨_, hq⟩
  document {f g t} _ hg hs ht := by
    unfold document at ht ⊢
    rw [cached?_congr hs] at ht
    split at ht
    · exact ht
    · rename_i hn
      simp only [hn, Option.isSome_none, Bool.false_eq_true, or_false] at hg
      obtain ⟨_, name, text, -, hf, -⟩ := Disk.load_eq_ok.1 ht
      obtain ⟨y, hy⟩ := hg f (FilePath.same_symm hs) ⟨_, hf⟩
      exact Disk.load_eq_of_same hs hy ht

theorem closed_steady (hd : d.WellFormed) (idBase : Option IdBase) :
    Closed d d.Steady ⟨[], idBase⟩ := by
  simpa [cached?] using closed_steady_or_kept hd ⟨[], idBase⟩

/-- A resolver that is true to its files is as good as one that has kept nothing. -/
theorem Faithful.agrees (hr : r.Faithful d) : Agrees d d.Steady ⟨[], r.idBase⟩ r := by
  refine ⟨rfl, fun f hf => ?_⟩
  have hload : document ⟨[], r.idBase⟩ d f = Tree.load d f := rfl
  rw [hload, document]
  cases hc : r.cached? f with
  | none => rfl
  | some t =>
    obtain ⟨e, he, rfl⟩ := Option.map_eq_some_iff.1 hc
    have hs : e.1.same f := by simpa using List.find?_some he
    have ht := hr e (List.mem_of_find?_eq_some he)
    obtain ⟨_, name, text, -, hn, -⟩ := Disk.load_eq_ok.1 ht
    obtain ⟨y, hy⟩ := hf e.1 (FilePath.same_symm hs) ⟨_, hn⟩
    exact (Disk.load_eq_of_same hs hy ht).symm

/-- Such a resolver leads a reference where one that has kept nothing leads it, unless the
reference stays in a file that is found under other spellings of its path only. -/
theorem Faithful.resolve_eq (hd : d.WellFormed) (hr : r.Faithful d) {raw : String}
    {stack : ResolutionStack}
    (hs : ∀ pointer, Reference.parse raw = .fragment pointer → d.Steady stack.currentFile) :
    (r.resolve d raw stack).1 = (resolve ⟨[], r.idBase⟩ d raw stack).1 := by
  refine resolveIn_congr_of_key (closed_steady hd r.idBase) hr.agrees fun key hk => ?_
  obtain ⟨hp, he⟩ | ⟨target, -, hl⟩ := keyOf_eq_ok.1 hk
  · exact he ▸ hs key.pointer hp
  · obtain ⟨p, -, hc⟩ := locate_eq_ok.1 hl
    exact (closed_steady hd r.idBase).canonical hc

end Resolver

namespace Request

variable {d : Disk} {idBase : Option IdBase} {requests : List Request}

/-- Whatever was asked of a resolver that had kept nothing: all that it keeps is what the files
hold, it goes on to keep that, and it answers as if it had kept nothing. -/
theorem serveAll_transparent (hd : d.WellFormed) (idBase : Option IdBase)
    (hq : ∀ q ∈ requests, q.Genuine d) :
    (serveAll d idBase requests).Faithful d ∧
    (∀ q, Genuine d q →
      (serveAll d idBase requests).Extends d (q.serve d (serveAll d idBase requests))) ∧
    ∀ raw stack,
      (∀ pointer, Reference.parse raw = .fragment pointer → d.Steady stack.currentFile) →
      ((serveAll d idBase requests).resolve d raw stack).1 =
        (Resolver.resolve ⟨[], idBase⟩ d raw stack).1 := by
  have hfresh : Resolver.Faithful d ⟨[], idBase⟩ := by simp [Resolver.Faithful]
  have h : Resolver.Extends d ⟨[], idBase⟩ (serveAll d idBase requests) := extends_foldl hfresh hq
  have hall := h.faithful hfresh
  refine ⟨hall, fun q hq => extends_serve hall hq, fun raw stack hs => ?_⟩
  rw [hall.resolve_eq hd hs, h.idBase]

def Shelf.disk : Disk :=
  ⟨[(["a.json"], .file (.text "\x7b\"not\":\x7b\"$ref\":\"b.json\"\x7d\x7d")),
    (["b.json"], .file (.text "\x7b\x7d"))], []⟩

/-- The first document is validated, and a reference in it is found to lead nowhere. -/
def Shelf.history : List Request :=
  [.validate (fun _ => [])
      (.ofTree ⟨"/a.json"⟩ ⟨"/"⟩ (.mapping [("not", .mapping [("$ref", .string "b.json")])])),
    .resolve "b.json#/x" (.new Shelf.disk ⟨"/a.json"⟩)]

theorem Shelf.transparent : disk.WellFormed ∧ (∀ q ∈ history, q.Genuine disk) ∧
    (∀ pointer, Reference.parse "b.json" = .fragment pointer →
      disk.Steady (ResolutionStack.new disk ⟨"c.json"⟩).currentFile) ∧
    (serveAll disk none history).cacheSize = 2 ∧
    ((serveAll disk none history).resolve disk "b.json" (.new disk ⟨"c.json"⟩)).1 =
      (Resolver.resolve ⟨[], none⟩ disk "b.json" (.new disk ⟨"c.json"⟩)).1 := by
  have hd : disk.WellFormed := by decide +kernel
  have hload : Tree.load disk (disk.canonicalOrGiven ⟨"/a.json"⟩) =
      .ok (.mapping [("not", .mapping [("$ref", .string "b.json")])]) := by decide +kernel
  have hq : ∀ q ∈ history, q.Genuine disk :=
    List.forall_mem_cons.2 ⟨hload, List.forall_mem_cons.2 ⟨trivial, by simp⟩⟩
  have hp : Reference.parse "b.json" = .external "b.json" "" := by decide +kernel
  have hs : ∀ pointer, Reference.parse "b.json" = .fragment pointer →
      disk.Steady (ResolutionStack.new disk ⟨"c.json"⟩).currentFile := by simp [hp]
  exact ⟨hd, hq, hs, by decide +kernel, (serveAll_transparent hd none hq).2.2 _ _ hs⟩

/-- A slash behind the name of a file keeps it from being opened, but not from being found among
the documents kept. -/
theorem Shelf.not_transparent :
    (∀ q ∈ [resolve "#" ⟨[⟨⟨"b.json"⟩, ""⟩], 64⟩], q.Genuine disk) ∧
    ((serveAll disk none [resolve "#" ⟨[⟨⟨"b.json"⟩, ""⟩], 64⟩]).resolve disk "#"
        ⟨[⟨⟨"b.json/"⟩, ""⟩], 64⟩).1 ≠
      (Resolver.resolve ⟨[], none⟩ disk "#" ⟨[⟨⟨"b.json/"⟩, ""⟩], 64⟩).1 := by
  refine ⟨List.forall_mem_singleton.2 trivial, fun h => ?_⟩
  exact absurd (congrArg (Except.map Target.value) h) (by decide +kernel)

end Request

end Schemata
